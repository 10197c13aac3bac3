import TimeOff.Service.OutboxProcessor

/-! The lifecycle of a time-off request, one transaction for each operation. -/

namespace TimeOff

/-- The body of a create call. -/
structure CreateTimeOffRequestDto where
  employeeId : String
  locationId : String
  startDate : String
  endDate : String
  days : Int
  reason : Option String
  submit : Bool
  deriving DecidableEq, Repr

/-- The stable key a request's debit carries, so that it is applied once. -/
def debitKey (id : String) : String :=
  "debit:" ++ id

/-- The stable key a request's credit carries. -/
def creditKey (id : String) : String :=
  "credit:" ++ id

/-- The request moved along a transition that was checked to be legal. -/
def TimeOffRequest.moved (request : TimeOffRequest) (action : RequestAction) :
    TimeOffRequest :=
  { request with status := (nextState request.status action).getD request.status }

namespace Store

/-- Fetch one request or report that it does not exist. -/
def getOrThrow (store : Store) (id : String) : Except ServiceError TimeOffRequest :=
  match store.requests.find id with
  | some request => .ok request
  | none => .error (.requestNotFound id)

/-- The request an earlier create call with the same key made. An empty key counts as none. -/
def existingFor (store : Store) (idempotencyKey : Option String) : Option TimeOffRequest :=
  -- A lookup is made only for a key that is present and not empty.
  (idempotencyKey.filter (· ≠ "")).bind fun k =>
    store.requests.rows.find? (·.idempotencyKey = some k)

/--
Create a draft, or return the request an earlier call with the same key created.

A call that asks for submission goes on with `submit` on the created draft.
-/
def create (store : Store) (uuid : String) (dto : CreateTimeOffRequestDto)
    (idempotencyKey : Option String) : Except ServiceError (TimeOffRequest × Store) :=
  match store.existingFor idempotencyKey with
  | some existing => .ok (existing, store)
  | none =>
    let created : TimeOffRequest :=
      { id := uuid, employeeId := dto.employeeId, locationId := dto.locationId
        startDate := dto.startDate, endDate := dto.endDate, days := dto.days
        reason := dto.reason, status := .draft, idempotencyKey, hcmRef := none, version := 0 }
    -- The unique index speaks about every stored key, also about an empty one.
    if created.idempotencyKey.isSome ∧
        store.requests.rows.any (·.idempotencyKey = created.idempotencyKey) then
      .error .duplicateIdempotencyKey
    else .ok (created.saved, store.saveRequest created)

/-- The request a transaction works on, provided the action is legal from its state. -/
def requestFor (store : Store) (id : String) (action : RequestAction) :
    Except ServiceError TimeOffRequest :=
  match store.requests.find id with
  | none => .error .notFound
  | some request =>
    if canTransition request.status action then .ok request
    else .error (.illegalTransition request.status action)

/-- The critical section of a submit: check the available balance and place the hold. -/
def submit (store : Store) (id uuid : String) : Except ServiceError (TimeOffRequest × Store) := do
  let request ← store.requestFor id .submit
  let components := store.computeComponents request.employeeId request.locationId
  if canReserve components request.days then
    let held := store.addReservation uuid request.id request.employeeId request.locationId
      request.days
    let submitted := request.moved .submit
    return (submitted.saved, held.saveRequest submitted)
  else
    throw (.insufficientBalance request.days (computeAvailable components))

/-- Approve and enqueue the debit, atomically. -/
def approve (store : Store) (id uuid : String) (now : Time) :
    Except ServiceError (TimeOffRequest × Store) := do
  let request ← store.requestFor id .approve
  let approved := request.moved .approve
  let saved := store.saveRequest approved
  return (approved.saved, saved.enqueue uuid now
    { requestId := request.id, type := .debit, idempotencyKey := debitKey request.id
      payload :=
        { employeeId := request.employeeId, locationId := request.locationId
          amount := request.days } })

/-- Reject and release the hold. -/
def reject (store : Store) (id : String) : Except ServiceError (TimeOffRequest × Store) := do
  let request ← store.requestFor id .reject
  let rejected := request.moved .reject
  return (rejected.saved, (store.releaseReservation request.id).saveRequest rejected)

/-- Cancel: before the commit release the hold, after it enqueue the compensating credit. -/
def cancel (store : Store) (id uuid : String) (now : Time) :
    Except ServiceError (TimeOffRequest × Store) := do
  let request ← store.requestFor id .cancel
  let cancelled := request.moved .cancel
  -- A commit is undone by a credit, anything earlier by giving the hold back.
  if request.status = .committed then
    let saved := store.saveRequest cancelled
    return (cancelled.saved, saved.enqueue uuid now
      { requestId := request.id, type := .credit, idempotencyKey := creditKey request.id
        payload :=
          { employeeId := request.employeeId, locationId := request.locationId
            amount := request.days } })
  else
    let released := store.releaseReservation request.id
    -- Only a debit that has not shipped is stopped.
    let stopped := if request.status = .approved then released.cancelPendingForRequest request.id
      else released
    return (cancelled.saved, stopped.saveRequest cancelled)

section Inversion

variable {store after : Store} {id uuid : String} {now : Time} {result : TimeOffRequest}

/-- A transaction that goes on has found its request in a state that allows the action. -/
theorem requestFor_ok {action : RequestAction} (found : store.requestFor id action = .ok result) :
    store.requests.find id = some result ∧ canTransition result.status action = true := by
  -- The two checks throw, so a returned request has passed both.
  unfold requestFor at found
  cases stored : store.requests.find id with
  | none => simp [stored] at found
  | some request =>
    simp only [stored] at found
    split at found
    · rename_i legal
      cases found
      exact ⟨rfl, legal⟩
    · cases found

/-- A transaction that returns has found its request, and gone on with it. -/
theorem requestFor_bind {β : Type} {action : RequestAction} {outcome : β}
    {body : TimeOffRequest → Except ServiceError β}
    (returned : (store.requestFor id action >>= body) = .ok outcome) :
    ∃ request, store.requests.find id = some request ∧
      canTransition request.status action = true ∧ body request = .ok outcome := by
  -- An error of the lookup would be the error of the whole transaction.
  cases allowed : store.requestFor id action with
  | error error => simp [allowed, Bind.bind, Except.bind] at returned
  | ok request =>
    obtain ⟨found, legal⟩ := requestFor_ok allowed
    exact ⟨request, found, legal, by simpa [allowed, Bind.bind, Except.bind] using returned⟩

/-- A create call without an earlier twin stores a fresh draft. -/
theorem create_ok {dto : CreateTimeOffRequestDto} {idempotencyKey : Option String}
    (created : store.create uuid dto idempotencyKey = .ok (result, after)) :
    store.existingFor idempotencyKey = some result ∧ after = store ∨
      store.existingFor idempotencyKey = none ∧ ∃ draft, result = draft.saved ∧
        draft.id = uuid ∧ draft.status = .draft ∧ after = store.saveRequest draft := by
  -- The call returns early with the earlier twin, or saves the row it has just made.
  unfold create at created
  cases known : store.existingFor idempotencyKey with
  | some existing =>
    simp only [known, Except.ok.injEq, Prod.mk.injEq] at created
    exact Or.inl ⟨congrArg some created.1, created.2.symm⟩
  | none =>
    simp only [known] at created
    split at created
    · cases created
    · cases created
      exact Or.inr ⟨rfl, _, rfl, rfl, rfl, rfl⟩

/-- A submit that succeeds has found a draft and room for its days, and places the hold. -/
theorem submit_ok (submitted : store.submit id uuid = .ok (result, after)) :
    ∃ request, store.requests.find id = some request ∧ request.status = .draft ∧
      0 < request.days ∧
      request.days ≤ store.available request.employeeId request.locationId ∧
      after = (store.addReservation uuid request.id request.employeeId request.locationId
        request.days).saveRequest (request.moved .submit) := by
  -- The hold is placed in the branch that the single admission predicate opens.
  obtain ⟨request, found, legal, returned⟩ := requestFor_bind submitted
  dsimp only at returned
  split at returned
  · rename_i admitted
    obtain ⟨positive, fits⟩ := (canReserve_iff _ _).mp admitted
    cases returned
    exact ⟨request, found, (canTransition_submit _).mp legal, positive, fits, rfl⟩
  · cases returned

/-- An approval that succeeds saves the request and enqueues its debit. -/
theorem approve_ok (approved : store.approve id uuid now = .ok (result, after)) :
    ∃ request, store.requests.find id = some request ∧ request.status = .pendingApproval ∧
      after = (store.saveRequest (request.moved .approve)).enqueue uuid now
        { requestId := request.id, type := .debit, idempotencyKey := debitKey request.id
          payload := ⟨request.employeeId, request.locationId, request.days⟩ } := by
  obtain ⟨request, found, legal, returned⟩ := requestFor_bind approved
  cases returned
  exact ⟨request, found, (canTransition_approve _).mp legal, rfl⟩

/-- A rejection that succeeds releases the hold. -/
theorem reject_ok (rejected : store.reject id = .ok (result, after)) :
    ∃ request, store.requests.find id = some request ∧ request.status = .pendingApproval ∧
      after = (store.releaseReservation request.id).saveRequest (request.moved .reject) := by
  obtain ⟨request, found, legal, returned⟩ := requestFor_bind rejected
  cases returned
  exact ⟨request, found, (canTransition_reject _).mp legal, rfl⟩

/-- A cancellation that succeeds takes the branch its status selects. -/
theorem cancel_ok (cancelled : store.cancel id uuid now = .ok (result, after)) :
    ∃ request, store.requests.find id = some request ∧
      (request.status = .committed ∧
          after = (store.saveRequest (request.moved .cancel)).enqueue uuid now
            { requestId := request.id, type := .credit, idempotencyKey := creditKey request.id
              payload := ⟨request.employeeId, request.locationId, request.days⟩ } ∨
        request.status = .approved ∧
          after = ((store.releaseReservation request.id).cancelPendingForRequest
            request.id).saveRequest (request.moved .cancel) ∨
        (request.status = .draft ∨ request.status = .pendingApproval) ∧
          after = (store.releaseReservation request.id).saveRequest (request.moved .cancel)) := by
  obtain ⟨request, found, legal, returned⟩ := requestFor_bind cancelled
  refine ⟨request, found, ?_⟩
  -- The legal source states are told apart, since each is cancelled in its own way.
  rcases (canTransition_cancel _).mp legal with draft | pending | approved | committed
  · simp only [draft, reduceCtorEq, if_false] at returned
    cases returned
    exact Or.inr (Or.inr ⟨Or.inl draft, rfl⟩)
  · simp only [pending, reduceCtorEq, if_false] at returned
    cases returned
    exact Or.inr (Or.inr ⟨Or.inr pending, rfl⟩)
  · simp only [approved, reduceCtorEq, if_false, if_true] at returned
    cases returned
    exact Or.inr (Or.inl ⟨approved, rfl⟩)
  · simp only [committed, if_true] at returned
    cases returned
    exact Or.inl ⟨committed, rfl⟩

end Inversion

end Store

end TimeOff
