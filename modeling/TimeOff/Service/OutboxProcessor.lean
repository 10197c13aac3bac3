import TimeOff.Service.BalanceService
import TimeOff.Service.OutboxService

/-! Delivery of outbox messages, and the transactions that record its outcome. -/

namespace TimeOff

/-- The command a message is delivered as. -/
def OutboxMessage.command (msg : OutboxMessage) : ApplyDeltaCommand :=
  { employeeId := msg.payload.employeeId
    locationId := msg.payload.locationId
    amount := msg.payload.amount
    type := if msg.type = .debit then .debit else .credit
    idempotencyKey := msg.idempotencyKey }

/-- How a delivery ended, as the processor distinguishes it. -/
inductive Attempt where
  | acked (ack : ApplyDeltaAck)
  -- An authoritative refusal, with its message.
  | refused (message : String)
  -- Any other error: the delivery is retried, and the request is left untouched.
  | errored (message : String)
  deriving DecidableEq, Repr

/-- Classify what the client returned or threw. -/
def Attempt.ofResult : Except HcmError ApplyDeltaAck → Attempt
  | .ok ack => .acked ack
  | .error (.rejection _ message) => .refused message
  | .error (.unavailable message) => .errored message

/-- The request as a save leaves it. -/
def TimeOffRequest.saved (request : TimeOffRequest) : TimeOffRequest :=
  { request with version := request.version + 1 }

@[simp] theorem TimeOffRequest.saved_status (request : TimeOffRequest) :
    request.saved.status = request.status := rfl

namespace Store

/-- Record that an acknowledged debit did not change the balance. -/
def recordDrift (store : Store) (uuid : String) (request : TimeOffRequest) (reason : String) :
    Store :=
  { store with
    events := store.events.save
      { id := uuid, type := .driftDetected
        employeeId := request.employeeId, locationId := request.locationId
        delta := 0, detail := .drift request.id reason } }

/-- Save a request, which also advances its version column. -/
def saveRequest (store : Store) (request : TimeOffRequest) : Store :=
  { store with requests := store.requests.save request.saved }

/-- Save a request in its next state, when the transition is legal. -/
def advance (store : Store) (request : TimeOffRequest) (action : RequestAction)
    (hcmRef : Option String) : Store :=
  match nextState request.status action with
  | some target => store.saveRequest { request with status := target, hcmRef := hcmRef }
  -- An illegal transition is skipped without an error.
  | none => store

/-- The transaction that records an acknowledgement. -/
def applySuccess (store : Store) (msg : OutboxMessage) (hcmRef : String) (hcmVersion : Int)
    (hcmActuallyApplied : Bool) (entryId eventId : String) : Store :=
  match store.requests.find msg.requestId with
  | none => store.markDone msg.id
  | some request =>
    let recorded :=
      match msg.type with
      | .debit =>
        -- The hold becomes a commit whatever the request has become in the meantime.
        let committed := store.commitReservation entryId request.id request.employeeId
          request.locationId msg.payload.amount (some hcmVersion)
        let advanced := committed.advance request .hcmCommitted (some hcmRef)
        if hcmActuallyApplied then advanced
        else advanced.recordDrift eventId request
          "HCM acknowledged debit without applying it (ghost success)"
      | .credit =>
        -- The credit gives the commit back, which an ingestion may already have absorbed.
        let released := store.releaseCommit request.id
        released.advance request .hcmCreditDone request.hcmRef
    recorded.markDone msg.id

/-- The transaction that records an authoritative refusal. -/
def applyRejection (store : Store) (msg : OutboxMessage) (reason : String) : Store :=
  let recorded :=
    match store.requests.find msg.requestId, msg.type with
    | some request, .debit =>
      let released := store.releaseReservation request.id
      released.advance request .hcmRejected request.hcmRef
    -- A refused credit needs human attention, so the request is left pending.
    | _, _ => store
  recorded.markRejected msg.id reason

/-- The transaction that records how an attempt ended. -/
def recordAttempt (store : Store) (msg : OutboxMessage) (attempt : Attempt)
    (entryId eventId : String) (now : Time) : Store :=
  match attempt with
  | .acked ack => store.applySuccess msg ack.hcmRef ack.version ack.applied entryId eventId
  | .refused message => store.applyRejection msg message
  | .errored message => store.markRetryOrDead msg message now

end Store

/-- What a drain keeps in memory: the re-entrancy flag, the claimed messages it has yet to hand
over, and the one whose outcome is not recorded yet. -/
structure OutboxProcessor where
  draining : Bool := false
  due : List OutboxMessage := []
  attempted : Option (OutboxMessage × Attempt) := none

namespace OutboxProcessor

/-- The claimed messages whose outcome is not recorded yet. -/
def held (processor : OutboxProcessor) : List OutboxMessage :=
  (processor.attempted.map (·.1)).toList ++ processor.due

/-- The flag is reset when the loop over the claimed messages ends. -/
def settled (processor : OutboxProcessor) : OutboxProcessor :=
  { draining := !processor.due.isEmpty, due := processor.due, attempted := none }

end OutboxProcessor

end TimeOff
