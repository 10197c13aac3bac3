import TimeOff.Common.BalanceMath
import TimeOff.Hcm.HcmCore

/-! The stored entities, and the store whose tables the transactions read and write. -/

namespace TimeOff

/-- Cached authoritative balance of an employee at a location. -/
structure Balance where
  employeeId : String
  locationId : String
  -- Last authoritative value received.
  hcmBalance : Int
  -- Highest version reconciled.
  lastReconciledVersion : Int
  -- Nothing until a snapshot with a timestamp was reconciled.
  asOf : Option Time
  deriving DecidableEq, Repr

/-- The composite primary key of a cached balance. -/
def Balance.pair (balance : Balance) : String × String :=
  (balance.employeeId, balance.locationId)

/-- An append-only ledger entry, of which only the state ever changes. -/
structure BalanceLedgerEntry where
  id : String
  -- Nothing for an entry that belongs to no request.
  requestId : Option String
  employeeId : String
  locationId : String
  amount : Int
  phase : LedgerPhase
  state : LedgerState
  -- Version at which a commit was acknowledged.
  hcmVersion : Option Int
  deriving DecidableEq, Repr

/-- The employee and location an entry counts for. -/
def BalanceLedgerEntry.pair (entry : BalanceLedgerEntry) : String × String :=
  (entry.employeeId, entry.locationId)

/-- What an outbox message carries to the system of record. -/
structure OutboxPayload where
  employeeId : String
  locationId : String
  amount : Int
  deriving DecidableEq, Repr

/-- A mutation waiting to be propagated, written with the state change that caused it. -/
structure OutboxMessage where
  id : String
  requestId : String
  type : OutboxType
  idempotencyKey : String
  payload : OutboxPayload
  status : OutboxStatus
  attempts : Int
  -- Nothing until the first transient failure sets a backoff.
  nextAttemptAt : Option Time
  lastError : Option String
  createdAt : Time
  deriving DecidableEq, Repr

/-- A time-off request and its lifecycle state. -/
structure TimeOffRequest where
  id : String
  employeeId : String
  locationId : String
  startDate : String
  endDate : String
  days : Int
  status : RequestStatus
  -- Key supplied by the client for its create call.
  idempotencyKey : Option String
  hcmRef : Option String
  reason : Option String
  version : Int
  deriving DecidableEq, Repr

/-- The employee and location a request is for. -/
def TimeOffRequest.pair (request : TimeOffRequest) : String × String :=
  (request.employeeId, request.locationId)

/-- The detail recorded with a reconciliation event. -/
inductive EventDetail where
  | reconciliation (previousAvailable newAvailable availableDelta authoritativeVersion : Int)
      (matchedCommits : Nat)
  -- The ghost debit of a request is recorded with the reason.
  | drift (requestId reason : String)
  deriving DecidableEq, Repr

/-- Audit record of a reconciliation outcome or of a detected drift. -/
structure ReconciliationEvent where
  id : String
  type : ReconciliationEventType
  employeeId : String
  locationId : String
  delta : Int
  detail : EventDetail
  deriving DecidableEq, Repr

/-- The employee and location an event is about. -/
def ReconciliationEvent.pair (event : ReconciliationEvent) : String × String :=
  (event.employeeId, event.locationId)

/-- The database. -/
structure Store where
  balances : Table Balance.pair := Table.empty
  ledger : Table BalanceLedgerEntry.id := Table.empty
  outbox : Table OutboxMessage.id := Table.empty
  requests : Table TimeOffRequest.id := Table.empty
  events : Table ReconciliationEvent.id := Table.empty

namespace Store

/-- The ledger entries of a request, in the order they were written. -/
def entriesOf (store : Store) (id : String) : List BalanceLedgerEntry :=
  store.ledger.rows.filter fun entry => entry.requestId = some id

/-- The outbox messages of a request, in the order they were enqueued. -/
def messagesOf (store : Store) (id : String) : List OutboxMessage :=
  store.outbox.rows.filter fun msg => msg.requestId = id

/-- The entries that count for an employee at a location. -/
def entriesAt (store : Store) (pair : String × String) : List BalanceLedgerEntry :=
  store.ledger.rows.filter fun entry => entry.pair = pair

theorem mem_entriesOf {store : Store} {id : String} {entry : BalanceLedgerEntry} :
    entry ∈ store.entriesOf id ↔ entry ∈ store.ledger.rows ∧ entry.requestId = some id := by
  simp [entriesOf]

theorem mem_messagesOf {store : Store} {id : String} {msg : OutboxMessage} :
    msg ∈ store.messagesOf id ↔ msg ∈ store.outbox.rows ∧ msg.requestId = id := by
  simp [messagesOf]

theorem mem_entriesAt {store : Store} {pair : String × String} {entry : BalanceLedgerEntry} :
    entry ∈ store.entriesAt pair ↔ entry ∈ store.ledger.rows ∧ entry.pair = pair := by
  simp [entriesAt]

end Store

/-- What a service call throws. -/
inductive ServiceError where
  | insufficientBalance (requested available : Int)
  | illegalTransition (source : RequestStatus) (action : RequestAction)
  -- The lookup by id names the request, the one inside a transaction does not.
  | requestNotFound (id : String)
  | notFound
  -- The unique index on the client's idempotency key refuses a second row.
  | duplicateIdempotencyKey
  deriving DecidableEq, Repr

/-- The message an error is reported with. What the driver says of a second row is its own. -/
def ServiceError.message (driverMessage : String) : ServiceError → String
  | .insufficientBalance requested available =>
    "Requested " ++ toString requested ++ " day(s) exceeds available balance of " ++
      toString available ++ "."
  | .illegalTransition source action =>
    "Action '" ++ action.text ++ "' is not allowed from state '" ++ source.text ++ "'."
  | .requestNotFound id => "Time-off request " ++ id ++ " not found."
  | .notFound => "Not Found"
  | .duplicateIdempotencyKey => driverMessage

end TimeOff
