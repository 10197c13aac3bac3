import TimeOff.Concurrency.Races

/-! Submits that race the transactions which record how deliveries ended. -/

namespace TimeOff

open Programs

/-- Save a request in its next state, when the transition is legal. -/
def advance (request : TimeOffRequest) (action : RequestAction) (hcmRef : Option String) :
    Section Unit :=
  match nextState request.status action with
  | some target => send (.saveRequest request.id target hcmRef)
  | none => return ()

/-- Move the hold of a request to a commit, in two statements. -/
def commitReservation (uuid requestId employeeId locationId : String) (amount : Int)
    (hcmVersion : Option Int) : Section Unit := do
  send (.releaseActive .reserve requestId)
  send (.insertEntry
    { id := uuid, requestId := some requestId, employeeId, locationId, amount
      phase := .commit, state := .active, hcmVersion })

/-- Record that an acknowledged debit did not change the balance. -/
def recordDrift (uuid : String) (request : TimeOffRequest) (reason : String) : Section Unit :=
  send (.insertEvent
    { id := uuid, type := .driftDetected
      employeeId := request.employeeId, locationId := request.locationId
      delta := 0, detail := .drift request.id reason })

/-- What an acknowledgement changes for the request of its message. -/
def settleSuccess (msg : OutboxMessage) (hcmRef : String) (hcmVersion : Int)
    (hcmActuallyApplied : Bool) (entryId eventId : String) (request : TimeOffRequest) :
    Section Unit :=
  match msg.type with
  | .debit => do
    commitReservation entryId request.id request.employeeId request.locationId
      msg.payload.amount (some hcmVersion)
    advance request .hcmCommitted (some hcmRef)
    onlyIf (hcmActuallyApplied = false) (recordDrift eventId request
      "HCM acknowledged debit without applying it (ghost success)")
  | .credit => do
    send (.releaseActive .commit request.id)
    advance request .hcmCreditDone none

/-- The transaction that records an acknowledgement. -/
def applySuccess (msg : OutboxMessage) (hcmRef : String) (hcmVersion : Int)
    (hcmActuallyApplied : Bool) (entryId eventId : String) : Section CallResult := do
  let found : Option TimeOffRequest ← send (.findRequest msg.requestId)
  -- Without its request, the message is only marked.
  found.elim (pure ())
    (settleSuccess msg hcmRef hcmVersion hcmActuallyApplied entryId eventId)
  send (.markDone msg.id)
  return .recorded

/-- What a refusal changes for the request of its message. -/
def settleRejection (msg : OutboxMessage) (request : TimeOffRequest) : Section Unit :=
  match msg.type with
  | .debit => do
    send (.releaseActive .reserve request.id)
    advance request .hcmRejected none
  | .credit => return ()

/-- The transaction that records an authoritative refusal. -/
def applyRejection (msg : OutboxMessage) (reason : String) : Section CallResult := do
  let found : Option TimeOffRequest ← send (.findRequest msg.requestId)
  found.elim (pure ()) (settleRejection msg)
  send (.markRejected msg.id reason)
  return .recorded

/-- Advancing the request that was read saves it with its reference, if it changes at all. -/
theorem run_advance {store : Store} {request : TimeOffRequest}
    (found : store.requests.find request.id = some request) (action : RequestAction)
    (hcmRef : Option String) :
    (advance request action hcmRef).run Statement.exec store =
      ((), store.advance request action (hcmRef.or request.hcmRef)) := by
  unfold advance Store.advance
  -- Where the transition is not legal, neither writes anything.
  cases nextState request.status action with
  | none => rfl
  | some target =>
    simp only [Prog.perform, Prog.run_call, Prog.run_ret, Statement.exec,
      Store.writeRequest_eq found]

/-- In one piece, the statements that record an acknowledgement are its transaction. -/
theorem run_applySuccess (store : Store) (msg : OutboxMessage) (hcmRef : String)
    (hcmVersion : Int) (hcmActuallyApplied : Bool) (entryId eventId : String) :
    (applySuccess msg hcmRef hcmVersion hcmActuallyApplied entryId eventId).run Statement.exec
      store = (.recorded,
        store.applySuccess msg hcmRef hcmVersion hcmActuallyApplied entryId eventId) := by
  unfold applySuccess Store.applySuccess
  simp only [Prog.bind_eq, Prog.perform_bind, Prog.run_call, Statement.exec]
  cases found : store.requests.find msg.requestId with
  | none => rfl
  | some request =>
    -- The ledger is written first, so the request is still the one that was read.
    have own : request.id = msg.requestId := Table.key_of_find found
    have kept (after : Store) (same : after.requests = store.requests) :
        after.requests.find request.id = some request := by rw [same, own, found]
    simp only [Option.elim_some, Prog.run_bind, Prog.run_call, Statement.exec, settleSuccess]
    cases msg.type with
    | debit =>
      let commit : BalanceLedgerEntry :=
        { id := entryId, requestId := some request.id, employeeId := request.employeeId
          locationId := request.locationId, amount := msg.payload.amount
          phase := .commit, state := .active, hcmVersion := some hcmVersion }
      simp only [commitReservation, Prog.bind_eq, Prog.call_bind, Prog.run_call, Prog.run_bind,
        Statement.exec, Prog.perform, Prog.ret_bind]
      rw [run_advance (kept ((store.releaseActive .reserve request.id).insertEntry commit) rfl)]
      -- A drift is recorded for a ghost success only.
      cases hcmActuallyApplied with
      | true => rfl
      | false => rfl
    | credit =>
      simp only [Prog.bind_eq, Prog.perform_bind, Prog.run_call, Statement.exec]
      rw [run_advance (kept (store.releaseActive .commit request.id) rfl)]
      rfl

/-- In one piece, the statements that record a refusal are its transaction. -/
theorem run_applyRejection (store : Store) (msg : OutboxMessage) (reason : String) :
    (applyRejection msg reason).run Statement.exec store =
      (.recorded, store.applyRejection msg reason) := by
  unfold applyRejection Store.applyRejection
  simp only [Prog.bind_eq, Prog.perform_bind, Prog.run_call, Statement.exec]
  cases found : store.requests.find msg.requestId with
  | none => rfl
  | some request =>
    -- The release leaves the request.
    have own : request.id = msg.requestId := Table.key_of_find found
    have kept : (store.releaseActive .reserve request.id).requests.find request.id =
        some request := own ▸ found
    simp only [Option.elim_some, Prog.run_bind, Prog.run_call, Statement.exec, settleRejection]
    cases msg.type with
    | debit =>
      simp only [Prog.bind_eq, Prog.perform_bind, Prog.run_call, Statement.exec]
      rw [run_advance kept]
      rfl
    | credit => rfl

end TimeOff
