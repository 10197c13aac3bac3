import Mathlib.Data.List.Sort
import TimeOff.Store.Entities

/-! The transactional outbox: enqueueing, claiming, and recording what became of a delivery. -/

namespace TimeOff

namespace OutboxService

/-- Attempts after which a message is parked. -/
def maxAttempts : Int := 5

/-- Delay before the first retry, in milliseconds. -/
def baseBackoffMs : Int := 200

/-- Messages one drain claims at most. -/
def claimLimit : Nat := 50

end OutboxService

/-- What a caller enqueues. -/
structure EnqueueInput where
  requestId : String
  type : OutboxType
  idempotencyKey : String
  payload : OutboxPayload

/-- The instant that the database stamps a new row with, in whole seconds. -/
def createdAtOf (now : Time) : Time :=
  now / 1000 * 1000

/-- The message that is written for it. -/
def EnqueueInput.message (input : EnqueueInput) (uuid : String) (now : Time) : OutboxMessage :=
  { id := uuid, requestId := input.requestId, type := input.type
    idempotencyKey := input.idempotencyKey, payload := input.payload
    status := .pending, attempts := 0, nextAttemptAt := none
    lastError := none, createdAt := createdAtOf now }

/-- Whether a message may be claimed: new, or failed with its backoff elapsed. -/
def OutboxMessage.due (now : Time) (msg : OutboxMessage) : Bool :=
  msg.status = .pending ||
    (msg.status = .failed && match msg.nextAttemptAt with
      | some at_ => decide (at_ ≤ now)
      -- A null date satisfies no comparison.
      | none => false)

/-- The copy of a message that a claim hands to its caller. -/
def OutboxMessage.claimed (msg : OutboxMessage) : OutboxMessage :=
  { msg with status := .inflight }

/-- The row a claim leaves in the table. -/
def OutboxMessage.claimedRow (msg : OutboxMessage) : OutboxMessage :=
  { msg with status := .inflight, nextAttemptAt := none }

namespace Store

/-- Enqueue a message inside the caller's transaction. -/
def enqueue (store : Store) (uuid : String) (now : Time) (input : EnqueueInput) : Store :=
  { store with outbox := store.outbox.save (input.message uuid now) }

/-- The due messages in the order of the index: new ones, then failed ones by their dates. -/
def dueByIndex (store : Store) (now : Time) : List OutboxMessage :=
  let due := store.outbox.rows.filter (·.due now)
  due.filter (·.status = .pending) ++ (due.filter fun msg => !(msg.status = .pending)).insertionSort
    fun left right => left.nextAttemptAt.getD 0 ≤ right.nextAttemptAt.getD 0

/-- The due messages, oldest first. Those of one second stay in the order of the index. -/
def dueByAge (store : Store) (now : Time) : List OutboxMessage :=
  (store.dueByIndex now).insertionSort fun left right => left.createdAt ≤ right.createdAt

/-- The due messages a claim takes. -/
def dueMessages (store : Store) (now : Time) (limit : Nat) : List OutboxMessage :=
  (store.dueByAge now).take limit

/-- Whatever their order, these are the due messages. -/
theorem perm_dueByAge (store : Store) (now : Time) :
    (store.dueByAge now).Perm (store.outbox.rows.filter (·.due now)) := by
  -- Both sorts keep what they sort, and the two statuses make up all that is due.
  refine (List.perm_insertionSort _ _).trans (List.Perm.trans ?_
    (List.filter_append_perm (fun msg => decide (msg.status = .pending)) _))
  exact (List.perm_insertionSort _ _).append_left _

/-- Claim due messages: mark them in flight and hand their copies to the caller. -/
def claimDue (store : Store) (now : Time) (limit : Nat := OutboxService.claimLimit) :
    List OutboxMessage × Store :=
  let due := store.dueMessages now limit
  let ids := due.map (·.id)
  (due.map OutboxMessage.claimed,
    { store with
      outbox := store.outbox.update (fun msg => ids.contains msg.id)
        OutboxMessage.claimedRow fun _ => rfl })

/-- Rewrite the message stored under an id. -/
def updateMessage (store : Store) (id : String) (set : OutboxMessage → OutboxMessage)
    (keeps : ∀ msg, (set msg).id = msg.id) : Store :=
  { store with outbox := store.outbox.update (fun msg => msg.id = id) set keeps }

/-- Record that a message was delivered. -/
def markDone (store : Store) (id : String) : Store :=
  store.updateMessage id (fun msg => { msg with status := .done, lastError := none }) fun _ => rfl

/-- Record a transient failure: schedule a retry with exponential backoff, or park the message. -/
def markRetryOrDead (store : Store) (msg : OutboxMessage) (error : String) (now : Time) : Store :=
  let attempts := msg.attempts + 1
  if OutboxService.maxAttempts ≤ attempts then
    store.updateMessage msg.id
      (fun row => { row with status := .dead, attempts := attempts, lastError := some error })
      fun _ => rfl
  else
    let backoff := OutboxService.baseBackoffMs * 2 ^ (attempts - 1).toNat
    store.updateMessage msg.id
      (fun row => { row with
        status := .failed, attempts := attempts, lastError := some error
        nextAttemptAt := some (now + backoff) })
      fun _ => rfl

/-- Cancel the messages of a request that are not being delivered. -/
def cancelPendingForRequest (store : Store) (requestId : String) : Store :=
  { store with
    outbox := store.outbox.update
      (fun msg => msg.requestId = requestId ∧ (msg.status = .pending ∨ msg.status = .failed))
      (fun msg => { msg with
        status := .dead
        lastError := some "cancelled: request cancelled before delivery" }) fun _ => rfl }

/-- Park a message that was refused authoritatively. -/
def markRejected (store : Store) (id error : String) : Store :=
  store.updateMessage id
    (fun msg => { msg with status := .dead, lastError := some ("REJECTED: " ++ error) })
    fun _ => rfl

end Store

end TimeOff
