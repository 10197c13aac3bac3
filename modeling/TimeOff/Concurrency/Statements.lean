import TimeOff.Library.Programs
import TimeOff.Service.SyncService
import TimeOff.Service.TimeOffService

/-!
The transactions again, as the statements they send to the database one by one.

Nothing but the mutex keeps the statements of two calls apart.
-/

namespace TimeOff

open Programs

/-- A statement sent to the database. -/
inductive Statement where
  | findRequest (id : String)
  | findBalance (employeeId locationId : String)
  -- The sums of the active entries of a pair, one for each phase.
  | sumActive (employeeId locationId : String)
  | findActive (employeeId locationId : String) (phase : LedgerPhase)
  | insertBalance (employeeId locationId : String) (row : HcmBalanceRow)
  | saveBalance (balance : Balance)
  | insertEntry (entry : BalanceLedgerEntry)
  | releaseActive (phase : LedgerPhase) (requestId : String)
  | markReconciled (ids : List String)
  -- Only the changed columns are written, by primary key. No version is compared.
  | saveRequest (id : String) (status : RequestStatus) (hcmRef : Option String)
  | insertEvent (event : ReconciliationEvent)
  | enqueue (uuid : String) (now : Time) (input : EnqueueInput)
  | cancelPending (requestId : String)
  | markDone (id : String)
  | markRejected (id error : String)

/-- What a statement answers. -/
@[reducible] def Statement.Answer : Statement → Type
  | .findRequest _ => Option TimeOffRequest
  | .findBalance _ _ => Option Balance
  | .sumActive _ _ => Int × Int
  | .findActive _ _ _ => List BalanceLedgerEntry
  | _ => Unit

namespace Store

/-- Insert one ledger entry. -/
def insertEntry (store : Store) (entry : BalanceLedgerEntry) : Store :=
  { store with ledger := store.ledger.save entry }

/-- Write the status of a stored request, and its reference where it has changed. -/
def writeRequest (store : Store) (id : String) (status : RequestStatus) (hcmRef : Option String) :
    Store :=
  { store with
    requests := store.requests.update (fun request => decide (request.id = id))
      (fun request => { request with
        status, hcmRef := hcmRef.or request.hcmRef, version := request.version + 1 }) fun _ => rfl }

end Store

/-- Run one statement. -/
def Statement.exec : (statement : Statement) → Store → statement.Answer × Store
  | .findRequest id, store => (store.requests.find id, store)
  | .findBalance employeeId locationId, store =>
    (store.balances.find (employeeId, locationId), store)
  | .sumActive employeeId locationId, store =>
    let rows := store.entriesAt (employeeId, locationId)
    ((activeTotal .reserve rows, activeTotal .commit rows), store)
  | .findActive employeeId locationId phase, store =>
    ((store.entriesAt (employeeId, locationId)).filter fun entry =>
      entry.state = .active ∧ entry.phase = phase, store)
  | .insertBalance employeeId locationId row, store =>
    ((), store.insertBalance employeeId locationId row)
  | .saveBalance balance, store => ((), { store with balances := store.balances.save balance })
  | .insertEntry entry, store => ((), store.insertEntry entry)
  | .releaseActive phase requestId, store => ((), store.releaseActive phase requestId)
  | .markReconciled ids, store => ((), store.markReconciled ids)
  | .saveRequest id status hcmRef, store => ((), store.writeRequest id status hcmRef)
  | .insertEvent event, store => ((), { store with events := store.events.save event })
  | .enqueue uuid now input, store => ((), store.enqueue uuid now input)
  | .cancelPending requestId, store => ((), store.cancelPendingForRequest requestId)
  | .markDone id, store => ((), store.markDone id)
  | .markRejected id error, store => ((), store.markRejected id error)

/-- What a call returns or throws. -/
inductive CallResult where
  | request (request : TimeOffRequest)
  | reconciled (result : ReconcileResult)
  -- The outcome of a delivery was recorded.
  | recorded
  | refused (error : ServiceError)
  | unavailable (error : HcmError)

/-- Whether a call has returned what it was asked for. -/
def CallResult.succeeded : CallResult → Bool
  | .refused _ | .unavailable _ => false
  | _ => true

/-- A program of statements. -/
abbrev Section := Prog Statement.Answer

/-- Send one statement and go on with its answer. -/
abbrev send (statement : Statement) : Section statement.Answer :=
  Prog.perform statement

/-- Run a program only under a condition. -/
def onlyIf (wanted : Prop) [Decidable wanted] (program : Section Unit) : Section Unit :=
  if wanted then program else return ()

/-- Go on with a request that is stored and may take an action. -/
def withRequest (id : String) (action : RequestAction)
    (next : TimeOffRequest → Section CallResult) :
    Section CallResult := do
  let found : Option TimeOffRequest ← send (.findRequest id)
  match found with
  | none => return .refused .notFound
  | some request =>
    if canTransition request.status action then next request
    else return .refused (.illegalTransition request.status action)

/-- Save a request whose status has moved along an action. -/
def saveMoved (request : TimeOffRequest) (action : RequestAction) : Section Unit :=
  send (.saveRequest request.id (request.moved action).status none)

/-- The live balance components, read by two statements. -/
def computeComponents (employeeId locationId : String) : Section BalanceComponents := do
  let balance : Option Balance ← send (.findBalance employeeId locationId)
  let sums ← send (.sumActive employeeId locationId)
  return { hcmBalance := (balance.map (·.hcmBalance)).getD 0
           reservedOpen := sums.1, committedPending := sums.2 }

/-- Insert the hold of a request. -/
def addReservation (uuid : String) (request : TimeOffRequest) : Section Unit :=
  send (.insertEntry
    { id := uuid, requestId := some request.id, employeeId := request.employeeId
      locationId := request.locationId, amount := request.days
      phase := .reserve, state := .active, hcmVersion := none })

/-- Place the hold of a request and submit it, when its days are there. -/
def reserveWithin (uuid : String) (request : TimeOffRequest) (components : BalanceComponents) :
    Section CallResult :=
  if canReserve components request.days then do
    addReservation uuid request
    saveMoved request .submit
    return .request (request.moved .submit).saved
  else
    return .refused (.insufficientBalance request.days (computeAvailable components))

/-- The critical section of a submit. -/
def submitSection (id uuid : String) : Section CallResult :=
  withRequest id .submit fun request =>
    computeComponents request.employeeId request.locationId >>= reserveWithin uuid request

/-- The section of a submit reads, inserts an entry, and writes that its request waits. -/
theorem submitSection_only {allowed : Statement → Prop} {id uuid : String}
    (leaves : ∀ statement : Statement, (∀ store, (statement.exec store).2.balances =
      store.balances ∧ (statement.exec store).2.requests = store.requests) → allowed statement)
    (writes : ∀ request, allowed (.saveRequest request .pendingApproval none)) :
    (submitSection id uuid).Only allowed := by
  refine Prog.only_bind (Prog.only_perform (leaves _ fun _ => ⟨rfl, rfl⟩)) fun found => ?_
  -- The section ends at once when its request is gone.
  cases found with
  | none => trivial
  | some request =>
    dsimp only
    split
    · rename_i legal
      refine Prog.only_bind
        (Prog.only_bind (Prog.only_perform (leaves _ fun _ => ⟨rfl, rfl⟩)) fun balance =>
          Prog.only_bind (Prog.only_perform (leaves _ fun _ => ⟨rfl, rfl⟩)) fun sums => trivial)
        fun components => ?_
      unfold reserveWithin
      split
      · -- The action leads from a draft to a request that waits.
        have target : (request.moved .submit).status = .pendingApproval := by
          simp [TimeOffRequest.moved, (canTransition_submit _).mp legal, nextState, transitions]
        refine Prog.only_bind (Prog.only_perform (leaves _ fun _ => ⟨rfl, rfl⟩)) fun _ =>
          Prog.only_bind (Prog.only_perform ?_) fun _ => trivial
        rw [target]
        exact writes request.id
      · trivial
    · trivial

/-- The transaction of an approval. -/
def approveSection (id uuid : String) (now : Time) : Section CallResult :=
  withRequest id .approve fun request => do
    saveMoved request .approve
    send (.enqueue uuid now
      { requestId := request.id, type := .debit, idempotencyKey := debitKey request.id
        payload := ⟨request.employeeId, request.locationId, request.days⟩ })
    return .request (request.moved .approve).saved

/-- The transaction of a rejection. -/
def rejectSection (id : String) : Section CallResult :=
  withRequest id .reject fun request => do
    send (.releaseActive .reserve request.id)
    saveMoved request .reject
    return .request (request.moved .reject).saved

/-- The transaction of a cancellation. -/
def cancelSection (id uuid : String) (now : Time) : Section CallResult :=
  withRequest id .cancel fun request => do
    if request.status = .committed then
      saveMoved request .cancel
      send (.enqueue uuid now
        { requestId := request.id, type := .credit, idempotencyKey := creditKey request.id
          payload := ⟨request.employeeId, request.locationId, request.days⟩ })
      return .request (request.moved .cancel).saved
    else
      send (.releaseActive .reserve request.id)
      onlyIf (request.status = .approved) (send (.cancelPending request.id))
      saveMoved request .cancel
      return .request (request.moved .cancel).saved

/-- The writes of a reconciliation that is applied. -/
def applyReconciliation (uuid : String) (now : Time) (update : HcmBalanceUpdate)
    (balance : Balance) (result : ReconcileResult) : Section CallResult := do
  onlyIf (result.matchedCommitIds ≠ []) (send (.markReconciled result.matchedCommitIds))
  send (.saveBalance
    { balance with
      hcmBalance := result.newHcmBalance
      lastReconciledVersion := result.newLastReconciledVersion
      asOf := some (update.asOf.getD now) })
  onlyIf (result.eventType ≠ .reconciled) (send (.insertEvent
    { id := uuid, type := result.eventType
      employeeId := update.employeeId, locationId := update.locationId
      delta := result.delta
      detail := .reconciliation result.previousAvailable result.newAvailable
        result.availableDelta update.version result.matchedCommitIds.length }))
  return .reconciled result

/-- The critical section of a reconciliation. -/
def reconcileSection (uuid : String) (now : Time) (update : HcmBalanceUpdate) :
    Section CallResult := do
  let found : Option Balance ← send (.findBalance update.employeeId update.locationId)
  let balance : Balance := found.getD
    { employeeId := update.employeeId, locationId := update.locationId
      hcmBalance := 0, lastReconciledVersion := 0, asOf := none }
  let reservedRows ← send (.findActive update.employeeId update.locationId .reserve)
  let committedRows ← send (.findActive update.employeeId update.locationId .commit)
  let result := reconcile
    { currentHcmBalance := balance.hcmBalance
      lastReconciledVersion := balance.lastReconciledVersion
      reservedOpen := (reservedRows.map (·.amount)).sum
      committedEntries := committedRows.map (·.toCommitted)
      authoritativeBalance := update.balance
      authoritativeVersion := update.version }
  if !result.applied then return .reconciled result
  else applyReconciliation uuid now update balance result

/-- What a transaction run in one piece returns or throws, and the store it leaves. -/
def CallResult.settle (store : Store) :
    Except ServiceError (TimeOffRequest × Store) → CallResult × Store
  | .ok (moved, after) => (.request moved, after)
  | .error error => (.refused error, store)

section InOnePiece

variable (store : Store) (id uuid : String) (now : Time)

/-- A written request is the saved one, when it is the one that was read. -/
theorem Store.writeRequest_eq {store : Store} {request : TimeOffRequest}
    (found : store.requests.find request.id = some request) (status : RequestStatus)
    (hcmRef : Option String) :
    store.writeRequest request.id status hcmRef =
      store.saveRequest { request with status, hcmRef := hcmRef.or request.hcmRef } := by
  -- An update through a function that is given the stored row saves what it makes of that row.
  let written (request : TimeOffRequest) : TimeOffRequest :=
    { request with status, hcmRef := hcmRef.or request.hcmRef, version := request.version + 1 }
  have stored : store.requests.find (written request).id = some request := found
  have same := store.requests.update_eq_save stored written (fun _ => rfl) rfl
  simp only [writeRequest, saveRequest]
  exact congrArg (fun requests => { store with requests }) same

/-- In one piece, the guard of a transaction is the one that fetches and checks its request. -/
theorem run_withRequest (action : RequestAction) (next : TimeOffRequest → Section CallResult) :
    (withRequest id action next).run Statement.exec store =
      match store.requestFor id action with
      | .ok request => (next request).run Statement.exec store
      | .error error => (.refused error, store) := by
  unfold withRequest Store.requestFor
  simp only [Prog.bind_eq, Prog.perform_bind, Prog.run_call, Statement.exec]
  cases found : store.requests.find id with
  | none => rfl
  | some request =>
    -- Both check the same status against the same action.
    by_cases legal : canTransition request.status action = true
    · simp [legal]
    · simp [legal]

/-- A guarded transaction in one piece: only its body is left to compare. -/
theorem run_guarded {action : RequestAction} {next : TimeOffRequest → Section CallResult}
    {body : TimeOffRequest → Except ServiceError (TimeOffRequest × Store)}
    (same : ∀ request, store.requests.find request.id = some request →
      (next request).run Statement.exec store = CallResult.settle store (body request)) :
    (withRequest id action next).run Statement.exec store =
      CallResult.settle store (store.requestFor id action >>= body) := by
  -- A refused request runs no body, and a fetched one is the stored row of its own id.
  rw [run_withRequest]
  cases checked : store.requestFor id action with
  | error error => rfl
  | ok request =>
    obtain ⟨found, _⟩ := Store.requestFor_ok checked
    obtain rfl := Table.key_of_find found
    exact same request found

/-- Saving a request that has moved saves the moved request. -/
theorem run_saveMoved {store : Store} {request : TimeOffRequest}
    (found : store.requests.find request.id = some request) (action : RequestAction) :
    (saveMoved request action).run Statement.exec store =
      ((), store.saveRequest (request.moved action)) := by
  simp only [saveMoved, Prog.perform, Prog.run_call, Prog.run_ret, Statement.exec,
    Store.writeRequest_eq found]
  rfl

/-- In one piece, the section of a submit is its transaction. -/
theorem run_submitSection :
    (submitSection id uuid).run Statement.exec store =
      CallResult.settle store (store.submit id uuid) := by
  refine run_guarded store id fun request found => ?_
  simp only [computeComponents, Prog.bind_eq, Prog.perform_bind, Prog.run_call, Prog.call_bind,
    Statement.exec, Prog.pure_eq, Prog.ret_bind]
  -- Both look at the same components, so they admit the same days.
  show (reserveWithin uuid request (store.computeComponents request.employeeId
    request.locationId)).run Statement.exec store = _
  unfold reserveWithin addReservation
  by_cases admitted : canReserve
      (store.computeComponents request.employeeId request.locationId) request.days = true
  · have kept (entry : BalanceLedgerEntry) :
        (store.insertEntry entry).requests.find request.id = some request := found
    simp only [admitted, if_true, Prog.bind_eq, Prog.perform_bind, Prog.run_call, Prog.run_bind,
      Statement.exec]
    rw [run_saveMoved (kept _)]
    rfl
  · simp only [admitted]
    rfl

/-- In one piece, the statements of an approval are its transaction. -/
theorem run_approveSection :
    (approveSection id uuid now).run Statement.exec store =
      CallResult.settle store (store.approve id uuid now) := by
  refine run_guarded store id fun request found => ?_
  -- The status is saved first, and then the debit is enqueued.
  simp only [Prog.bind_eq, Prog.run_bind, run_saveMoved found]
  rfl

/-- In one piece, the statements of a rejection are its transaction. -/
theorem run_rejectSection :
    (rejectSection id).run Statement.exec store =
      CallResult.settle store (store.reject id) := by
  -- The release writes another table, so the request is still the one that was fetched.
  refine run_guarded store id fun request found => ?_
  have kept : (store.releaseActive .reserve request.id).requests.find request.id =
      some request := found
  simp only [Prog.bind_eq, Prog.perform_bind, Prog.run_call, Prog.run_bind, Statement.exec]
  rw [run_saveMoved kept]
  rfl

/-- In one piece, the statements of a cancellation are its transaction. -/
theorem run_cancelSection :
    (cancelSection id uuid now).run Statement.exec store =
      CallResult.settle store (store.cancel id uuid now) := by
  -- A committed request is credited, and any other one gives its hold back.
  refine run_guarded store id fun request found => ?_
  by_cases committed : request.status = .committed
  · simp only [if_pos committed, Prog.bind_eq, Prog.run_bind, run_saveMoved found]
    rfl
  · -- Neither the release nor the stop of the debit writes the request.
    have released : (store.releaseActive .reserve request.id).requests.find request.id =
        some request := found
    have stopped : ((store.releaseActive .reserve request.id).cancelPendingForRequest
        request.id).requests.find request.id = some request := found
    simp only [if_neg committed, Prog.bind_eq, Prog.perform_bind, Prog.run_call, Statement.exec,
      onlyIf]
    by_cases approved : request.status = .approved
    · simp only [if_pos approved, Prog.perform_bind, Prog.run_call, Prog.run_bind, Statement.exec]
      rw [run_saveMoved stopped]
      rfl
    · simp only [if_neg approved, Prog.pure_eq, Prog.ret_bind, Prog.run_bind]
      rw [run_saveMoved released]
      rfl

/-- In one piece, the writes of a reconciliation leave what its transaction leaves. -/
theorem run_applyReconciliation (update : HcmBalanceUpdate) (balance : Balance)
    (result : ReconcileResult) :
    (applyReconciliation uuid now update balance result).run Statement.exec store =
      (.reconciled result,
        Store.recordReconciliation
          { store.markReconciled result.matchedCommitIds with
            balances := store.balances.save
              { balance with
                hcmBalance := result.newHcmBalance
                lastReconciledVersion := result.newLastReconciledVersion
                asOf := some (update.asOf.getD now) } } uuid update result) := by
  -- Marking no commit at all changes nothing, so leaving it out makes no difference.
  have none_ : store.markReconciled [] = store := by
    simp [Store.markReconciled, Table.update_of_disjoint]
  unfold applyReconciliation Store.recordReconciliation onlyIf
  -- Each of the two conditions is one on what the reconciliation has found.
  by_cases unmatched : result.matchedCommitIds = []
  · by_cases silent : result.eventType = .reconciled
    · simp [unmatched, silent, none_, Statement.exec, Prog.perform]
    · simp [unmatched, silent, none_, Statement.exec, Prog.perform]
  · by_cases silent : result.eventType = .reconciled
    · simp [unmatched, silent, Statement.exec, Prog.perform]
      rfl
    · simp [unmatched, silent, Statement.exec, Prog.perform]
      rfl

/-- In one piece, the section of a reconciliation is its transaction. -/
theorem run_reconcileSection (update : HcmBalanceUpdate) :
    (reconcileSection uuid now update).run Statement.exec store =
      (.reconciled (store.reconcileKey uuid now update).1,
        (store.reconcileKey uuid now update).2) := by
  unfold reconcileSection Store.reconcileKey
  simp only [Prog.bind_eq, Prog.perform_bind, Prog.run_call, Statement.exec]
  -- The three reads answer what the reconciliation looks at.
  show (if (!(reconcile (store.reconcileInput update)).applied) = true then _
    else applyReconciliation uuid now update
      (store.balanceOrBlank update.employeeId update.locationId)
      (reconcile (store.reconcileInput update)) : Section CallResult).run Statement.exec store = _
  -- A stale update returns after the reads.
  by_cases applied : (reconcile (store.reconcileInput update)).applied = true
  · simp only [applied, Bool.not_true, Bool.false_eq_true, if_false, run_applyReconciliation]
    rfl
  · simp only [applied, Bool.not_false, if_true]
    rfl

end InOnePiece

end TimeOff
