import TimeOff.Outbox.Drains
import TimeOff.Outbox.Rows

/-! How often, how soon and until when every message is handed over, however the drains overlap. -/

namespace TimeOff

/-- The retries of the outbox, in the usual order of instants. -/
def OutboxService.policy : @Backoff.Policy Time Int.instLinearOrder.toPreorder where
  limit := maxAttempts.toNat
  due number failed := failed + baseBackoffMs * 2 ^ (number - 1)
  positive := by decide
  later number failed := by
    have delay : 0 ≤ baseBackoffMs * 2 ^ (number - 1) :=
      Int.mul_nonneg (by decide) (Int.pow_nonneg (by decide))
    exact Int.le_add_of_nonneg_right delay

namespace ServiceAction

theorem cancels_cancel {msg : OutboxMessage} {id uuid : String} {now : Time} :
    (ServiceAction.operate (.cancel id uuid now)).cancels msg = true ↔
      msg.requestId = id ∧ msg.Claimable := by
  simp [cancels, OutboxMessage.Claimable]

/-- Only a cancellation cancels a message, one that waits and belongs to its request. -/
theorem exists_of_cancels {action : ServiceAction} {msg : OutboxMessage}
    (cancels : action.cancels msg = true) :
    ∃ id uuid now, action = .operate (.cancel id uuid now) ∧ msg.requestId = id ∧
      msg.Claimable := by
  -- Every other action is no cancellation by definition.
  cases action with
  | operate operation =>
    cases operation with
    | cancel id uuid now => exact ⟨id, uuid, now, rfl, cancels_cancel.mp cancels⟩
    | _ => cases cancels
  | _ => cases cancels

end ServiceAction

/-- A message as a step outside of the drains leaves it. -/
def OutboxMessage.after (msg : OutboxMessage) (action : ServiceAction) : OutboxMessage :=
  if action.cancels msg then msg.stopped else msg

namespace OutboxMessage

theorem after_eq_self {msg : OutboxMessage} {action : ServiceAction}
    (kept : action.cancels msg = false) : msg.after action = msg := by
  simp [after, kept]

theorem after_eq_stopped {msg : OutboxMessage} {action : ServiceAction}
    (cancelled : action.cancels msg = true) : msg.after action = msg.stopped := by
  simp [after, cancelled]

/-- A cancellation stops the messages of its request, and spares what does not wait. -/
theorem after_cancel {msg : OutboxMessage} {id uuid : String} {now : Time} :
    msg.after (.operate (.cancel id uuid now)) =
      if msg.requestId = id then msg.stopped else msg := by
  by_cases own : msg.requestId = id <;>
    by_cases waits : msg.status = .pending ∨ msg.status = .failed <;>
      simp_all [after, ServiceAction.cancels, stopped]

@[simp] theorem after_id (msg : OutboxMessage) (action : ServiceAction) :
    (msg.after action).id = msg.id := by
  -- The id is not among the fields that stopping a message writes.
  unfold after
  split
  · exact msg.stopped_id
  · rfl

end OutboxMessage

namespace Service

variable {service moved : Service} {action : ServiceAction}

/-- Outside of an approved request, a cancellation finds no message that waits. -/
theorem not_claimable_of_cancel (coherent : service.Coherent) {request : TimeOffRequest}
    (found : service.store.requests.find request.id = some request)
    (early : request.status = .committed ∨ request.status = .draft ∨
      request.status = .pendingApproval) {row : OutboxMessage}
    (stored : row ∈ service.store.outbox.rows) (own : row.requestId = request.id) :
    ¬row.Claimable := by
  obtain ⟨progress, shown⟩ := coherent.shown request.id
  have listed := shown.message_mem (Store.mem_messagesOf.mpr ⟨stored, own⟩)
  have status := shown.status_eq found
  rcases early with committed | draft | pending
  · -- The debit of a committed request is delivered.
    rw [committed] at status
    obtain ⟨version, absorbed, rfl⟩ := Progress.eq_committed status
    obtain ⟨_, delivered⟩ := Prod.mk.inj (List.mem_singleton.mp listed)
    simp [OutboxMessage.Claimable, delivered]
  · -- Before the approval there is no message at all.
    rw [draft] at status
    obtain rfl := Progress.eq_draft status
    cases listed
  · rw [pending] at status
    obtain rfl := Progress.eq_held status
    cases listed

/-- A cancellation stops the waiting messages of its request, and may enqueue a credit. -/
theorem rows_of_cancel (coherent : service.Coherent) {id uuid : String} {now : Time}
    (taken : service.step (.operate (.cancel id uuid now)) = some moved) :
    ∃ fresh : List OutboxMessage,
      moved.store.outbox.rows = service.store.outbox.rows.map
        (fun msg => msg.after (.operate (.cancel id uuid now))) ++ fresh ∧
      ∀ msg ∈ fresh, msg.status = .pending ∧ msg.attempts = 0 ∧
        service.store.outbox.find msg.id = none := by
  cases step_move taken with
  | cancels _ _ _ _ _ new cancelled =>
    obtain ⟨request, found, outcome⟩ := Store.cancel_ok cancelled
    obtain rfl := Table.key_of_find found
    -- Unless the request is approved, none of its messages waits.
    have kept (early : request.status = .committed ∨ request.status = .draft ∨
        request.status = .pendingApproval) :
        service.store.outbox.rows.map
          (fun msg => msg.after (.operate (.cancel request.id uuid now))) =
            service.store.outbox.rows := by
      refine (List.map_congr_left fun msg stored => ?_).trans (List.map_id _)
      refine OutboxMessage.after_eq_self (eq_false_of_ne_true fun cancels => ?_)
      obtain ⟨own, waits⟩ := ServiceAction.cancels_cancel.mp cancels
      exact not_claimable_of_cancel coherent found early stored own waits
    rcases outcome with ⟨committed, rfl⟩ | ⟨approved, rfl⟩ | ⟨early, rfl⟩
    · -- The credit of a committed request is the one new row.
      refine ⟨[(request.propagate .credit).message uuid now], ?_, ?_⟩
      · rw [kept (Or.inl committed)]
        exact Table.rows_save_of_fresh new
      · intro msg member
        obtain rfl := List.mem_singleton.mp member
        exact ⟨rfl, rfl, new⟩
    · -- An approved request is the one whose debit may still wait.
      refine ⟨[], ?_, by simp⟩
      rw [List.append_nil]
      refine (Store.rows_cancelPending (service.store.releaseReservation request.id)
        request.id).trans (List.map_congr_left fun msg _ => ?_)
      exact OutboxMessage.after_cancel.symm
    · exact ⟨[], by rw [kept (Or.inr early), List.append_nil]; rfl, by simp⟩

/-- Outside of the drains, waiting messages are stopped by a cancellation, and new ones enqueued. -/
theorem rows_of_foreign (coherent : service.Coherent) (foreign : action.foreign = true)
    (taken : service.step action = some moved) :
    ∃ fresh : List OutboxMessage,
      moved.store.outbox.rows =
        service.store.outbox.rows.map (fun msg => msg.after action) ++ fresh ∧
      ∀ msg ∈ fresh, msg.status = .pending ∧ msg.attempts = 0 ∧
        service.store.outbox.find msg.id = none := by
  by_cases cancel : ∃ id uuid now, action = .operate (.cancel id uuid now)
  · obtain ⟨id, uuid, now, rfl⟩ := cancel
    exact rows_of_cancel coherent taken
  · -- Any other step leaves the stored messages as they are.
    have kept (msg : OutboxMessage) : msg.after action = msg := by
      refine OutboxMessage.after_eq_self (eq_false_of_ne_true fun cancels => ?_)
      obtain ⟨id, uuid, now, rfl, _⟩ := ServiceAction.exists_of_cancels cancels
      exact cancel ⟨id, uuid, now, rfl⟩
    have same : service.store.outbox.rows.map (fun msg => msg.after action) =
        service.store.outbox.rows := by
      simp only [kept, List.map_id']
    rw [same]
    cases step_queue taken with
    | kept _ rows _ => exact ⟨[], by simpa using rows, by simp⟩
    | enqueued msg _ pending attempts new rows _ =>
      refine ⟨[msg], rows, fun other member => ?_⟩
      obtain rfl := List.mem_singleton.mp member
      exact ⟨pending, attempts, new⟩
    -- The rest is a cancellation, or a step of a drain.
    | stopped id uuid now named => exact absurd ⟨id, uuid, now, named⟩ cancel
    | claimed _ named | heard _ _ _ named | recorded _ _ _ _ _ named | caught _ _ _ named
    | escaped _ _ _ named | crashed named =>
      rw [named] at foreign
      cases foreign

end Service

open OutboxService (policy)

/-- What a stored message says of everything that has happened to it. -/
structure OutboxMessage.Reflects (row : OutboxMessage) (history : List (Backoff.Event Time)) :
    Prop where
  counted : row.Claimable ∨ row.status = .inflight → row.attempts = Backoff.failures history
  waits : row.Claimable → policy.Idle history
  ready : ∀ now, row.due now = true → policy.Ready history now
  inflight : row.status = .inflight → policy.Idle history ∨ policy.Busy history
  done : row.status = .done → policy.Done history
  dead : row.status = .dead → policy.Dead history

namespace OutboxMessage

variable {row msg : OutboxMessage} {history : List (Backoff.Event Time)} {now clock : Time}

/-- A new message has no history. -/
theorem reflects_of_pending (pending : row.status = .pending) (attempts : row.attempts = 0) :
    row.Reflects [] where
  counted _ := by simp [attempts]
  waits _ := Backoff.idle_nil
  ready _ _ := Backoff.ready_nil
  inflight status := by simp [pending] at status
  done status := by simp [pending] at status
  dead status := by simp [pending] at status

theorem reflects_of_inflight (inflight : row.status = .inflight)
    (counted : row.attempts = Backoff.failures history)
    (going : policy.Idle history ∨ policy.Busy history) : row.Reflects history where
  counted _ := counted
  waits waits := by simp [Claimable, inflight] at waits
  -- A message in flight is not due, and it has not ended.
  ready _ due := by simpa [inflight] using open_of_due due
  inflight _ := going
  done status := by simp [inflight] at status
  dead status := by simp [inflight] at status

theorem reflects_of_done (done : row.status = .done) (delivered : policy.Done history) :
    row.Reflects history where
  counted going := by simp [Claimable, done] at going
  waits waits := by simp [Claimable, done] at waits
  -- Only a message that waits is due.
  ready _ due := by simpa [done] using open_of_due due
  inflight status := by simp [done] at status
  done _ := delivered
  dead status := by simp [done] at status

theorem reflects_of_dead (dead : row.status = .dead) (parked : policy.Dead history) :
    row.Reflects history where
  counted going := by simp [Claimable, dead] at going
  waits waits := by simp [Claimable, dead] at waits
  -- Only a message that waits is due.
  ready _ due := by simpa [dead] using open_of_due due
  inflight status := by simp [dead] at status
  done status := by simp [dead] at status
  dead _ := parked

/-- A message that has failed waits for the time that is stored with it. -/
theorem reflects_of_failed (failed : row.status = .failed)
    (counted : row.attempts = Backoff.failures history) (idle : policy.Idle history) {retry : Time}
    (scheduled : row.nextAttemptAt = some retry) (ready : policy.Ready history retry) :
    row.Reflects history where
  counted _ := counted
  waits _ := idle
  ready _ due := by
    -- Once failed, a message is due from its stored time on.
    simp only [OutboxMessage.due, failed, scheduled] at due
    exact ready.mono (by simpa using due)
  inflight status := by simp [failed] at status
  done status := by simp [failed] at status
  dead status := by simp [failed] at status

/-- A claim changes nothing that has happened. -/
theorem Reflects.claimedRow (reflects : row.Reflects history) (waits : row.Claimable) :
    row.claimedRow.Reflects history :=
  reflects_of_inflight rfl (reflects.counted (Or.inl waits)) (Or.inl (reflects.waits waits))

/-- A waiting message that is stopped is dead. -/
theorem Reflects.stopped (reflects : row.Reflects history) (waits : row.Claimable) :
    row.stopped.Reflects (history ++ [.cancelled]) := by
  -- A message that waits is one that a cancellation stops.
  have dead : row.stopped.status = .dead := by
    unfold OutboxMessage.stopped
    split
    · rfl
    · rename_i neither
      exact absurd waits neither
  exact reflects_of_dead dead (reflects.waits waits).cancelled

/-- The settled row says how the open try has ended. -/
theorem reflects_settledRow (busy : policy.Busy history) (ready : policy.Ready history clock)
    (counted : msg.attempts = Backoff.failures history) (later : clock ≤ now)
    (attempt : Attempt) :
    (attempt.settledRow msg now msg.claimedRow).Reflects (history ++ [attempt.outcome now]) := by
  cases attempt with
  | acked ack => exact reflects_of_done rfl busy.acknowledged
  | refused message => exact reflects_of_dead rfl busy.refused
  | errored message =>
    by_cases spent : OutboxService.maxAttempts ≤ msg.attempts + 1
    · -- The last try has failed.
      refine reflects_of_dead (by simp [Attempt.settledRow, spent]) (busy.spent ?_)
      simp only [policy, OutboxService.maxAttempts] at spent ⊢
      omega
    · have left : Backoff.failures history + 1 < policy.limit := by
        simp only [policy, OutboxService.maxAttempts] at spent ⊢
        omega
      have idle : policy.Idle (history ++ [.failed now]) := busy.failed left
      -- The stored time is when the failure is due, and every earlier one was due by then.
      have due : policy.due (Backoff.failures history + 1) now =
          now + OutboxService.baseBackoffMs * 2 ^ (msg.attempts + 1 - 1).toNat := by
        simp [policy, counted]
      have ready : policy.Ready (history ++ [.failed now])
          (policy.due (Backoff.failures history + 1) now) := by
        refine (ready.mono (later.trans (policy.later _ _))).concat fun failed last => ?_
        obtain rfl := Backoff.Event.failed.inj last
        exact le_rfl
      have settled : (Attempt.errored message).settledRow msg now msg.claimedRow =
          { msg.claimedRow with
            status := .failed, attempts := msg.attempts + 1, lastError := some message
            nextAttemptAt := some (policy.due (Backoff.failures history + 1) now) } := by
        rw [due]
        exact if_neg spent
      -- The new row is failed, with the count and the time that its history calls for.
      rw [settled]
      refine reflects_of_failed rfl ?_ idle rfl ready
      simp [counted, Attempt.outcome, Backoff.Event.isFailure]

end OutboxMessage

namespace Drains

/-- What is known of a message that a call has claimed, and of one that it is delivering. -/
structure Kept (drains : Drains) : Prop where
  known : ∀ id, (∀ row ∈ drains.store.outbox.rows, row.id ≠ id) → drains.history id = []
  rows : ∀ row ∈ drains.store.outbox.rows, row.Reflects (drains.history row.id)
  claiming : ∀ drain now, drains.drain drain = .claiming now → now ≤ drains.clock
  claimed : ∀ drain, ∀ msg ∈ (drains.drain drain).claimed,
    policy.Idle (drains.history msg.id) ∧ policy.Ready (drains.history msg.id) drains.clock ∧
      msg.attempts = Backoff.failures (drains.history msg.id)
  delivering : ∀ drain msg, (drains.drain drain).delivering = some msg →
    policy.Busy (drains.history msg.id) ∧ policy.Ready (drains.history msg.id) drains.clock ∧
      msg.attempts = Backoff.failures (drains.history msg.id)

variable {before after : Drains} {action : DrainsAction} {service : Service} {drain : Nat}
  {reached : DrainOnce}

theorem kept_init (clock : Time) : (init clock).Kept where
  known _ _ := rfl
  rows _ member := by cases member
  claiming _ _ claiming := by cases claiming
  claimed _ _ member := by cases member
  delivering _ _ delivering := by cases delivering

/-- A call that only lets go of messages, or none, keeps what is known. -/
theorem Kept.moved (kept : before.Kept)
    (calls : after.drain = Function.update before.drain drain reached)
    (store : after.store = before.store) (history : after.history = before.history)
    (clock : before.clock ≤ after.clock)
    (claiming : ∀ now, reached = .claiming now → now ≤ after.clock)
    (claimed : ∀ msg ∈ reached.claimed, msg ∈ (before.drain drain).claimed)
    (delivering : ∀ msg, reached.delivering = some msg →
      (before.drain drain).delivering = some msg) : after.Kept where
  known := by
    rw [store, history]
    exact kept.known
  rows := by
    rw [store, history]
    exact kept.rows
  claiming other now here := by
    rcases drain_update calls other with ⟨_, moved⟩ | ⟨_, still⟩
    · exact claiming now (moved.symm.trans here)
    · exact (kept.claiming other now (still.symm.trans here)).trans clock
  claimed other msg member := by
    -- The copies were there before, and what was ready stays ready.
    have old : msg ∈ (before.drain other).claimed := by
      rcases drain_update calls other with ⟨rfl, moved⟩ | ⟨_, still⟩
      · exact claimed msg (moved ▸ member)
      · exact still ▸ member
    rw [history]
    obtain ⟨idle, ready, counted⟩ := kept.claimed other msg old
    exact ⟨idle, ready.mono clock, counted⟩
  delivering other msg here := by
    -- Nor is any message delivered that was not before.
    have old : (before.drain other).delivering = some msg := by
      rcases drain_update calls other with ⟨rfl, moved⟩ | ⟨_, still⟩
      · exact delivering msg (moved ▸ here)
      · exact still ▸ here
    rw [history]
    obtain ⟨busy, ready, counted⟩ := kept.delivering other msg old
    exact ⟨busy, ready.mono clock, counted⟩

/--
What the only active call does to one message keeps what is known.

The other messages keep their rows and their histories.
-/
theorem Kept.noted (kept : before.Kept) (serves : before.Serves service)
    (active : (before.drain drain).active = true) {msg : OutboxMessage}
    (stored : msg.claimedRow ∈ before.store.outbox.rows) (set : OutboxMessage → OutboxMessage)
    (keeps : ∀ row, (set row).id = row.id) {history : List (Backoff.Event Time)}
    (calls : after.drain = Function.update before.drain drain reached)
    (histories : after.history = Function.update before.history msg.id history)
    (clock : before.clock ≤ after.clock)
    (rows : after.store.outbox.rows =
      before.store.outbox.rows.map fun row => if row.id = msg.id then set row else row)
    (reflects : (set msg.claimedRow).Reflects history)
    (claiming : ∀ now, reached ≠ .claiming now)
    (claimed : ∀ other ∈ reached.claimed,
      other ∈ (before.drain drain).claimed ∧ other.id ≠ msg.id)
    (delivering : ∀ other, reached.delivering = some other → other = msg ∧ policy.Busy history ∧
      policy.Ready history after.clock ∧ msg.attempts = Backoff.failures history) :
    after.Kept := by
  have alone := (serves.of_active drain active).2.1
  -- No other call keeps a message.
  have nothing (other : Nat) (copy : OutboxMessage) (different : other ≠ drain) :
      copy ∉ (before.drain other).memory.held :=
    fun held => different (alone other (DrainOnce.active_of_held held))
  refine ⟨fun id absent => ?_, fun row member => ?_, fun other now here => ?_,
    fun other copy member => ?_, fun other copy here => ?_⟩
  · -- The rows keep their ids, so an unknown id was unknown before.
    have unknown (row : OutboxMessage) (member : row ∈ before.store.outbox.rows) : row.id ≠ id := by
      have moved := absent (if row.id = msg.id then set row else row)
        (rows ▸ List.mem_map_of_mem member)
      split at moved
      · rwa [keeps] at moved
      · exact moved
    have different : id ≠ msg.id := fun same => unknown msg.claimedRow stored same.symm
    rw [histories, Function.update_of_ne different]
    exact kept.known id unknown
  · -- The row of the message is the new one, and the others are as they were.
    rw [rows] at member
    obtain ⟨source, old, rfl⟩ := List.mem_map.mp member
    by_cases named : source.id = msg.id
    · obtain rfl : msg.claimedRow = source := Table.eq_of_key_eq stored old named.symm
      simpa [histories, keeps] using reflects
    · simpa [histories, named] using kept.rows source old
  · rcases drain_update calls other with ⟨_, moved⟩ | ⟨_, still⟩
    · exact absurd (moved.symm.trans here) (claiming now)
    · exact (kept.claiming other now (still.symm.trans here)).trans clock
  · rcases drain_update calls other with ⟨rfl, moved⟩ | ⟨different, still⟩
    · -- What the call still keeps are other messages, without a new event.
      obtain ⟨old, unlike⟩ := claimed copy (moved ▸ member)
      rw [histories, Function.update_of_ne unlike]
      obtain ⟨waits, ready, counted⟩ := kept.claimed other copy old
      exact ⟨waits, ready.mono clock, counted⟩
    · rw [still] at member
      exact absurd (by simp [member]) (nothing other copy different)
  · rcases drain_update calls other with ⟨rfl, moved⟩ | ⟨different, still⟩
    · -- What the call delivers is this message, in its new history.
      obtain ⟨rfl, busy, ready, counted⟩ := delivering copy (moved ▸ here)
      simpa [histories] using ⟨busy, ready, counted⟩
    · rw [still] at here
      exact absurd (by simp [here]) (nothing other copy different)

/-- A message that a call keeps is the copy of a row in flight. -/
theorem Serves.row_of_held (serves : before.Serves service) (coherent : service.Coherent)
    (drain : Nat) {msg : OutboxMessage} (held : msg ∈ (before.drain drain).memory.held) :
    msg.claimedRow ∈ before.store.outbox.rows :=
  serves.store_eq ▸ coherent.held msg (serves.mem_held held)

/-- A call keeps no message twice. -/
theorem Serves.distinct (serves : before.Serves service) (coherent : service.Coherent)
    (active : (before.drain drain).active = true) :
    ((before.drain drain).memory.held.map (·.id)).Nodup :=
  (serves.of_active drain active).2.2 ▸ coherent.distinct

/-- A claim takes only messages that are ready. -/
theorem Kept.claims (kept : before.Kept) {now : Time}
    (claiming : before.drain drain = .claiming now) :
    (({ before with store := (before.store.claimDue now).2 }).move drain
      (.looping (before.store.claimDue now).1)).Kept := by
  have early := kept.claiming drain now claiming
  have calls : (({ before with store := (before.store.claimDue now).2 }).move drain
      (.looping (before.store.claimDue now).1)).drain =
        Function.update before.drain drain (.looping (before.store.claimDue now).1) := rfl
  refine ⟨fun id absent => ?_, fun row member => ?_, fun other now here => ?_,
    fun other copy member => ?_, fun other copy here => ?_⟩
  · -- The claim rewrites rows under their ids.
    refine kept.known id fun row stored named => ?_
    apply absent _ ((Store.rows_claimDue ..).symm ▸ List.mem_map_of_mem stored)
    split
    · exact named
    · exact named
  · change row ∈ (before.store.claimDue now).2.outbox.rows at member
    rw [Store.rows_claimDue] at member
    obtain ⟨source, stored, rfl⟩ := List.mem_map.mp member
    have reflects := kept.rows source stored
    split
    · -- A claimed row was due, so its history was idle.
      rename_i selected
      have due := (Store.mem_dueMessages (Store.mem_dueMessages_of_id stored selected)).2
      exact reflects.claimedRow (OutboxMessage.open_of_due due)
    · exact reflects
  · rcases drain_update calls other with ⟨_, moved⟩ | ⟨_, still⟩
    · cases moved.symm.trans here
    · exact kept.claiming other now (still.symm.trans here)
  · rcases drain_update calls other with ⟨rfl, moved⟩ | ⟨_, still⟩
    · -- The copies a claim hands out are of messages that were due by then.
      rw [moved] at member
      have handed : copy ∈ (before.store.claimDue now).1 := member
      obtain ⟨source, selected, rfl⟩ := List.mem_map.mp handed
      obtain ⟨stored, due⟩ := Store.mem_dueMessages selected
      have reflects := kept.rows source stored
      have waits := OutboxMessage.open_of_due due
      exact ⟨reflects.waits waits, (reflects.ready now due).mono early,
        reflects.counted (Or.inl waits)⟩
    · exact kept.claimed other copy (still ▸ member)
  · rcases drain_update calls other with ⟨_, moved⟩ | ⟨_, still⟩
    · rw [moved] at here
      cases here
    · exact kept.delivering other copy (still ▸ here)

/-- A stored message is noted as cancelled exactly if the step cancels it. -/
theorem history_noteCancelled {serviceAction : ServiceAction} {row : OutboxMessage}
    (stored : row ∈ before.store.outbox.rows) :
    (before.noteCancelled serviceAction).history row.id =
      if serviceAction.cancels row then before.history row.id ++ [.cancelled]
      else before.history row.id := by
  simp [noteCancelled, Table.find_of_mem stored]

/-- A step outside of the drains does not cancel a message that a call keeps. -/
theorem history_of_held {serviceAction : ServiceAction} {msg : OutboxMessage}
    (stored : msg.claimedRow ∈ before.store.outbox.rows) :
    (before.noteCancelled serviceAction).history msg.id = before.history msg.id := by
  refine (history_noteCancelled stored).trans (if_neg fun cancels => ?_)
  obtain ⟨_, _, _, _, _, waits⟩ := ServiceAction.exists_of_cancels cancels
  simp [OutboxMessage.Claimable] at waits

/-- A step outside of the drains keeps what is known. -/
theorem Kept.served (kept : before.Kept) (serves : before.Serves service)
    (coherent : service.Coherent) {serviceAction : ServiceAction} {store : Store}
    (foreign : serviceAction.foreign = true)
    (taken : service.step serviceAction = some { store, processor := service.processor }) :
    ({ before.noteCancelled serviceAction with store } : Drains).Kept := by
  obtain ⟨fresh, rows, new⟩ := Service.rows_of_foreign coherent foreign taken
  rw [serves.store_eq] at rows new
  change store.outbox.rows = _ at rows
  -- An id that no message had before has no history.
  have unknown {id : String} (absent : before.store.outbox.find id = none) :
      (before.noteCancelled serviceAction).history id = [] := by
    have nothing := kept.known id (Table.find_eq_none.mp absent)
    simp [noteCancelled, absent, nothing]
  refine ⟨fun id absent => unknown (Table.find_eq_none.mpr fun row stored => ?_),
    fun row member => ?_, kept.claiming, fun drain msg member => ?_, fun drain msg here => ?_⟩
  · -- The rows of before are still there, under the same ids.
    have moved : row.after serviceAction ∈ store.outbox.rows :=
      rows ▸ List.mem_append_left _ (List.mem_map_of_mem stored)
    exact row.after_id serviceAction ▸ absent _ moved
  · change row ∈ store.outbox.rows at member
    rw [rows] at member
    rcases List.mem_append.mp member with old | enqueued
    · obtain ⟨source, stored, rfl⟩ := List.mem_map.mp old
      have reflects := kept.rows source stored
      show (source.after serviceAction).Reflects
        ((before.noteCancelled serviceAction).history (source.after serviceAction).id)
      rw [OutboxMessage.after_id, history_noteCancelled stored]
      -- A cancelled row is stopped, and its history says so.
      cases cancels : serviceAction.cancels source with
      | true =>
        obtain ⟨_, _, _, _, _, waits⟩ := ServiceAction.exists_of_cancels cancels
        simpa [OutboxMessage.after_eq_stopped cancels] using reflects.stopped waits
      | false => simpa [OutboxMessage.after_eq_self cancels] using reflects
    · -- A new row has no history yet.
      obtain ⟨pending, attempts, absent⟩ := new row enqueued
      show row.Reflects ((before.noteCancelled serviceAction).history row.id)
      rw [unknown absent]
      exact OutboxMessage.reflects_of_pending pending attempts
  · -- What a call keeps is in flight, and a cancellation spares it.
    have held : msg ∈ (before.drain drain).memory.held := by
      have claimed : msg ∈ (before.drain drain).claimed := member
      simp [claimed]
    have same : (before.noteCancelled serviceAction).history msg.id = before.history msg.id :=
      history_of_held (serves.row_of_held coherent drain held)
    have claimed := kept.claimed drain msg member
    rwa [← same] at claimed
  · have held : msg ∈ (before.drain drain).memory.held := by
      have delivering : (before.drain drain).delivering = some msg := here
      simp [delivering]
    have same : (before.noteCancelled serviceAction).history msg.id = before.history msg.id :=
      history_of_held (serves.row_of_held coherent drain held)
    have delivering := kept.delivering drain msg here
    rwa [← same] at delivering

/-- Every step keeps what is known. -/
theorem step_kept (kept : before.Kept) (serves : before.Serves service)
    (coherent : service.Coherent) (taken : before.step action = some after) : after.Kept := by
  -- The steps are taken in turn: entering, claiming, handing over, hearing, and recording.
  cases step_effect taken with
  | overlaps drain now uncalled later =>
    exact kept.moved rfl rfl rfl later (by simp) (by simp [DrainOnce.claimed])
      (by simp [DrainOnce.delivering])
  | enters drain now uncalled later =>
    refine kept.moved rfl rfl rfl later (fun started same => ?_) (by simp [DrainOnce.claimed])
      (by simp [DrainOnce.delivering])
    cases same
    exact le_rfl
  | claims drain now claiming => exact kept.claims claiming
  | claimFails drain now claiming | finishes drain claiming =>
    exact kept.moved rfl rfl rfl le_rfl (by simp) (by simp [DrainOnce.claimed])
      (by simp [DrainOnce.delivering])
  | hands drain now msg rest looping later =>
    obtain ⟨idle, ready, counted⟩ := kept.claimed drain msg (by simp [DrainOnce.claimed, looping])
    have busy := idle.tried (ready.mono later)
    have held : msg ∈ (before.drain drain).memory.held := by simp [DrainOnce.claimed, looping]
    have active := DrainOnce.active_of_held held
    -- The rest of the batch are other messages, so their histories stay as they are.
    have distinct := serves.distinct coherent active
    rw [looping] at distinct
    refine kept.noted serves active (serves.row_of_held coherent drain held) id (fun _ => rfl)
      rfl rfl later
      (by simp [move, note]) ?_ (by simp) (fun other member => ?_) (fun other here => ?_)
    · -- The try does not count as a failure, and the row stays in flight.
      refine OutboxMessage.reflects_of_inflight rfl (counted.trans ?_) (Or.inr busy)
      simp [Backoff.Event.isFailure]
    · refine ⟨by simpa [looping, DrainOnce.claimed] using Or.inr member, fun named => ?_⟩
      exact (List.nodup_cons.mp distinct).1 (List.mem_map.mpr ⟨other, member, named⟩)
    · obtain rfl := Option.some.inj here
      exact ⟨rfl, busy, (ready.mono later).concat (by simp),
        by simp [counted, Backoff.Event.isFailure]⟩
  | hears drain result msg rest awaiting =>
    refine kept.moved rfl rfl rfl le_rfl (by simp) ?_ ?_
    · simp [DrainOnce.claimed, awaiting]
    · simp [DrainOnce.delivering, awaiting]
  | records drain entryId eventId now msg attempt rest attempted later =>
    obtain ⟨busy, ready, counted⟩ :=
      kept.delivering drain msg (by simp [DrainOnce.delivering, attempted])
    have held : msg ∈ (before.drain drain).memory.held := by
      simp [DrainOnce.delivering, attempted]
    have active := DrainOnce.active_of_held held
    have distinct := serves.distinct coherent active
    -- The record is about the delivered message, and the rest of the batch are others.
    rw [attempted] at distinct
    refine kept.noted serves active (serves.row_of_held coherent drain held)
      (attempt.settledRow msg now) (attempt.settledRow_id msg now) rfl rfl later
      (Store.rows_recordAttempt ..)
      (OutboxMessage.reflects_settledRow busy ready counted later attempt) (by simp)
      (fun other member => ?_) (by simp [DrainOnce.delivering])
    refine ⟨by simpa [attempted, DrainOnce.claimed] using member, fun named => ?_⟩
    exact (List.nodup_cons.mp distinct).1 (List.mem_map.mpr ⟨other, member, named⟩)
  | catches drain message msg ack rest attempted =>
    refine kept.moved rfl rfl rfl le_rfl (by simp) ?_ ?_
    · simp [DrainOnce.claimed, attempted]
    · simp [DrainOnce.delivering, attempted]
  | escapes drain message msg attempt rest attempted =>
    exact kept.moved rfl rfl rfl le_rfl (by simp) (by simp [DrainOnce.claimed])
      (by simp [DrainOnce.delivering])
  | serves serviceAction inner foreign moved =>
    exact kept.served serves coherent foreign (foreign_step foreign serves.store_eq moved)

/-- However drains overlap, every stored message says what has happened to it. -/
theorem Reachable.kept {clock : Time} {drains : Drains} (reached : Drains.Reachable clock drains) :
    drains.Kept := by
  -- The induction carries along that the drains together serve one reachable service.
  refine Runs.Reachable.invariant (kept_init clock) ?_ reached
  intro before action after earlier kept _ taken
  obtain ⟨service, served, serves⟩ := Reachable.serves earlier
  exact step_kept kept serves served.coherent taken

/-- A history is only ever added to. -/
theorem step_history (taken : before.step action = some after) (id : String) :
    ∃ more, after.history id = before.history id ++ more := by
  -- Three kinds of step write something down, each at the end of a history.
  have kept : ∃ more, before.history id = before.history id ++ more := ⟨[], by simp⟩
  have noted (drains : Drains) (msg : String) (event : Backoff.Event Time)
      (same : drains.history = before.history) :
      ∃ more, (drains.note msg event).history id = before.history id ++ more := by
    by_cases own : id = msg
    · subst own
      exact ⟨[event], by simp [note, same]⟩
    · exact ⟨[], by simp [note, same, Function.update_of_ne own]⟩
  cases step_effect taken with
  | hands => exact noted _ _ _ rfl
  | records => exact noted _ _ _ rfl
  -- A step outside of the drains writes down only what it cancels.
  | serves serviceAction =>
    by_cases cancelled : (before.store.outbox.find id).any fun msg => serviceAction.cancels msg
    · exact ⟨[.cancelled], if_pos cancelled⟩
    · exact ⟨[], (if_neg cancelled).trans (List.append_nil _).symm⟩
  | _ => exact kept

end Drains

section Statement

variable {row : OutboxMessage} {history : List (Backoff.Event Time)}

/-- The history of every stored message is disciplined. -/
theorem OutboxMessage.Reflects.disciplined (reflects : row.Reflects history) :
    policy.Disciplined history := by
  -- Whatever the status is, the history it stands for is a disciplined one.
  cases status : row.status with
  | pending => exact (reflects.waits (Or.inl status)).disciplined
  | failed => exact (reflects.waits (Or.inr status)).disciplined
  | inflight => exact (reflects.inflight status).elim (·.disciplined) (·.disciplined)
  | done => exact (reflects.done status).disciplined
  | dead => exact (reflects.dead status).disciplined

/-- The history of a stored message is over exactly if the message is delivered or parked. -/
theorem OutboxMessage.Reflects.over_iff (reflects : row.Reflects history) :
    policy.Over history ↔ row.status = .done ∨ row.status = .dead := by
  -- A message that waits or is in flight is still going, and the other two have ended.
  cases status : row.status with
  | pending => exact iff_of_false (reflects.waits (Or.inl status)).going (by simp)
  | failed => exact iff_of_false (reflects.waits (Or.inr status)).going (by simp)
  | inflight =>
    exact iff_of_false ((reflects.inflight status).elim (·.going) (·.going)) (by simp)
  | done => exact iff_of_true (Or.inl (reflects.done status).acknowledged) (by simp)
  | dead => exact iff_of_true (Or.inr (reflects.dead status).givenUp) (by simp)

/-- How a stored message has been handed over, and what its status says of that. -/
structure OutboxMessage.Disciplined (row : OutboxMessage) (history : List (Backoff.Event Time)) :
    Prop where
  handed : Backoff.tries history ≤ OutboxService.maxAttempts
  -- The failure after this many others delays every later try.
  spaced : ∀ before failed between again rest,
    history = before ++ .failed failed :: (between ++ .tried again :: rest) →
      failed + OutboxService.baseBackoffMs * 2 ^ Backoff.failures before ≤ again
  done_iff : row.status = .done ↔ .acknowledged ∈ history
  dead_iff : row.status = .dead ↔ .refused ∈ history ∨ .cancelled ∈ history ∨
    Backoff.failures history = OutboxService.maxAttempts

/-- A message that reflects its history keeps the retry discipline. -/
theorem OutboxMessage.Reflects.keeps (reflects : row.Reflects history) :
    row.Disciplined history := by
  have disciplined := reflects.disciplined
  have limit : (policy.limit : Int) = OutboxService.maxAttempts := rfl
  have handed := disciplined.limited
  have answered := disciplined.answered
  have closed := reflects.over_iff
  refine ⟨by omega, fun before failed between again rest same => ?_, ?_, ?_⟩
  · -- The try finds the job ready, also as far as this failure is concerned.
    have ready := disciplined.spaced (before ++ .failed failed :: between) again rest
      (by simp [same])
    simpa [policy] using ready before failed between rfl
  · -- What ended by an acknowledgement was not given up.
    refine ⟨fun done => (reflects.done done).acknowledged, fun acknowledged => ?_⟩
    rcases closed.mp (Or.inl acknowledged) with done | dead
    · exact done
    · exact absurd acknowledged (reflects.dead dead).unacknowledged
  · have spent : policy.limit ≤ Backoff.failures history ↔
        (Backoff.failures history : Int) = OutboxService.maxAttempts := by omega
    -- What was given up was not acknowledged.
    rw [← spent]
    refine ⟨fun dead => (reflects.dead dead).givenUp, fun given => ?_⟩
    rcases closed.mp (Or.inr given) with done | dead
    · exact absurd given (reflects.done done).kept
    · exact dead

end Statement

namespace Drains

variable {before : Drains}

/-- Every history is disciplined, also that of an id no message has. -/
theorem Kept.disciplined (kept : before.Kept) (id : String) :
    policy.Disciplined (before.history id) := by
  -- An id without a message has no history, and a row reflects its own.
  cases found : before.store.outbox.find id with
  | none =>
    rw [kept.known id (Table.find_eq_none.mp found)]
    exact Backoff.idle_nil.disciplined
  | some row =>
    obtain rfl := Table.key_of_find found
    exact (kept.rows row (Table.mem_of_find found)).disciplined

/-- A call is delivering the message of an id. -/
def Delivers (drains : Drains) (drain : Nat) (id : String) : Prop :=
  ∃ msg, (drains.drain drain).delivering = some msg ∧ msg.id = id

/--
The outbox retries every message with discipline, however the drains overlap.

A message is handed over a limited number of times, by one call at a time, with a growing delay
after every failure, and never again once it is delivered or parked.
-/
theorem retry_discipline {clock : Time} {taken : List (Drains × DrainsAction)} {final : Drains}
    (trace : Drains.Trace clock taken final) :
    ∀ state, Runs.Visits taken final state →
      (∀ row ∈ state.store.outbox.rows, row.Disciplined (state.history row.id)) ∧
      (∀ id first second, state.Delivers first id → state.Delivers second id → first = second) ∧
      ∀ row ∈ state.store.outbox.rows, row.status = .done ∨ row.status = .dead →
        Backoff.tries (final.history row.id) = Backoff.tries (state.history row.id) := by
  intro state visited
  have reached : Drains.Reachable clock state :=
    Runs.Trace.reachable_of_visits trace (fun _ _ _ => trivial) visited
  obtain ⟨service, _, serves⟩ := reached.serves
  refine ⟨fun row stored => (reached.kept.rows row stored).keeps, ?_, fun row stored closed => ?_⟩
  · -- Two calls that deliver a message both keep it, and it is kept once.
    intro id first second given alsoGiven
    obtain ⟨one, here, _⟩ := given
    obtain ⟨two, there, _⟩ := alsoGiven
    have held : one ∈ (state.drain first).memory.held := by simp [here]
    have heldToo : two ∈ (state.drain second).memory.held := by simp [there]
    exact serves.eq_of_held held heldToo
  · -- What is added to a history that is over is no try.
    have grown : ∃ more, final.history row.id = state.history row.id ++ more := by
      refine Runs.Trace.persists
        (fun seen => ∃ more, seen.history row.id = state.history row.id ++ more) trace ?_ visited
        ⟨[], (List.append_nil _).symm⟩
      intro before action after _ _ taken given
      obtain ⟨more, same⟩ := given
      obtain ⟨next, longer⟩ := step_history taken row.id
      exact ⟨more ++ next, by rw [longer, same, List.append_assoc]⟩
    obtain ⟨more, same⟩ := grown
    have ended : Drains.Reachable clock final :=
      Runs.Trace.reachable_of_visits trace (fun _ _ _ => trivial) (Or.inl rfl)
    have ends := (reached.kept.rows row stored).over_iff.mpr closed
    have nothing := (ended.kept.disciplined row.id).final _ _ same ends
    rw [same, Backoff.tries_append, nothing, Nat.add_zero]

/-- A debit that fails once and is acknowledged later, with calls that overlap or come too early. -/
def overlappingRun : List DrainsAction :=
  [.serve (.insertBalance "e" "l" ⟨"e", "l", 10, 1, 0⟩),
    .serve (.operate (.create "r" ⟨"e", "l", "2025-01-06", "2025-01-08", 3, none, true⟩ none)),
    .serve (.operate (.submit "r" "hold")),
    .serve (.operate (.approve "r" "debit" 0)),
    .call 0 0, .call 1 0, .claim 0, .hand 0 1,
    .hear 0 (.error (.unavailable "HCM 503: server error")),
    .record 0 "unused" "unused" 2, .finish 0,
    .call 2 100, .claim 2, .finish 2,
    .call 3 202, .claim 3, .hand 3 203, .hear 3 (.ok ⟨"hcm-ref-1", 7, 2, true, false⟩),
    .record 3 "commit" "drift" 204, .finish 3]

/-- The run can be taken, and its debit is delivered by the second try. -/
theorem retry_discipline_overlapping : ∃ taken final,
    Drains.Trace 0 taken final ∧ Backoff.tries (final.history "debit") = 2 ∧
      ∀ row ∈ final.store.outbox.rows, row.Disciplined (final.history row.id) := by
  -- The run is executed, and the discipline is that of its last state.
  have executed : (Runs.run step (fun _ _ => true) (init 0) overlappingRun).map (fun final =>
      decide (Backoff.tries (final.history "debit") = 2)) = some true := by
    decide
  obtain ⟨final, ended, twice⟩ := Option.map_eq_some_iff.mp executed
  obtain ⟨taken, trace, _⟩ := Runs.trace_of_run .start ended
  exact ⟨taken, final, trace, of_decide_eq_true twice,
    (retry_discipline trace final (Or.inl rfl)).1⟩

end Drains

end TimeOff
