import TimeOff.Library.Runs
import TimeOff.Service.TimeOffService
import TimeOff.Service.SyncService

/-!
The service as a transition system over an arbitrary system of record.

Every database transaction is one step, and so is hearing from the other side.
-/

namespace TimeOff

/-- The service: its database, and what its outbox processor keeps in memory. -/
structure Service where
  -- What survives a crash.
  store : Store := {}
  -- What a crash loses.
  processor : OutboxProcessor := {}

/-- What the service does without hearing from the system of record. -/
inductive Operation where
  | create (uuid : String) (dto : CreateTimeOffRequestDto) (idempotencyKey : Option String)
  | submit (id uuid : String)
  | approve (id uuid : String) (now : Time)
  | reject (id : String)
  | cancel (id uuid : String) (now : Time)
  -- The guard of a drain and the claim that follows it.
  | drain (now : Time)
  -- The transaction that records the attempted delivery commits.
  | record (entryId eventId : String) (now : Time)
  -- That transaction throws and is rolled back.
  | recordFails (message : String)
  deriving DecidableEq, Repr

/-- Every step of the service. -/
inductive ServiceAction where
  | operate (operation : Operation)
  -- The client answers the delivery of the next claimed message.
  | answer (result : Except HcmError ApplyDeltaAck)
  -- The write half of a first load.
  | insertBalance (employeeId locationId : String) (row : HcmBalanceRow)
  -- One update of any channel.
  | reconcileKey (uuid : String) (now : Time) (update : HcmBalanceUpdate)
  -- The process stops and starts again: the database stays, the memory is lost.
  | crash

namespace Service

/-- A committed transaction replaces the database, and a refused call changes nothing. -/
def commit (service : Service) (result : Except ServiceError (TimeOffRequest × Store)) :
    Option Service :=
  match result with
  | .ok (_, store) => some { service with store }
  | .error _ => none

/-- The operations of the service, as far as they are enabled. -/
def operate (service : Service) : Operation → Option Service
  | .create uuid dto idempotencyKey =>
    -- A generated id is a new one.
    if (service.store.requests.find uuid).isNone then
      service.commit (service.store.create uuid dto idempotencyKey)
    else none
  | .submit id uuid =>
    -- The critical section starts after the snapshot was loaded, and snapshots are never deleted.
    match service.store.requests.find id with
    | none => none
    | some request =>
      -- A hold is written under a new id.
      if (service.store.balances.find request.pair).isSome ∧
          (service.store.ledger.find uuid).isNone then
        service.commit (service.store.submit id uuid)
      else none
  | .approve id uuid now =>
    -- A message is enqueued under a new id.
    if (service.store.outbox.find uuid).isNone then
      service.commit (service.store.approve id uuid now)
    else none
  | .reject id => service.commit (service.store.reject id)
  | .cancel id uuid now =>
    if (service.store.outbox.find uuid).isNone then
      service.commit (service.store.cancel id uuid now)
    else none
  | .drain now =>
    -- An overlapping drain returns at once.
    if service.processor.draining then none
    else
      -- The flag stays up only when there is something to hand over.
      let (due, store) := service.store.claimDue now
      some { store, processor := { draining := !due.isEmpty, due, attempted := none } }
  | .record entryId eventId now =>
    match service.processor.attempted with
    | none => none
    | some (msg, attempt) =>
      -- The commit and the drift event are written under new ids.
      if (service.store.ledger.find entryId).isNone ∧
          (service.store.events.find eventId).isNone then
        some
          { store := service.store.recordAttempt msg attempt entryId eventId now
            processor := service.processor.settled }
      else none
  | .recordFails message =>
    match service.processor.attempted with
    | none => none
    -- A failed success transaction is caught, and the delivery counts as errored.
    | some (msg, .acked _) =>
      some { service with
        processor := { service.processor with attempted := some (msg, .errored message) } }
    -- Any other failed transaction escapes the delivery and ends the drain.
    | some _ => some { service with processor := {} }

/-- One step of the service. -/
def step (service : Service) : ServiceAction → Option Service
  | .operate operation => service.operate operation
  | .answer result =>
    -- Messages are handed over one by one, each after the outcome before it was recorded.
    match service.processor.due, service.processor.attempted with
    | msg :: rest, none =>
      some { service with
        processor := { service.processor with
          due := rest, attempted := some (msg, Attempt.ofResult result) } }
    | _, _ => none
  | .insertBalance employeeId locationId row =>
    some { service with store := service.store.insertBalance employeeId locationId row }
  | .reconcileKey uuid now update =>
    -- The audit event is written under a new id.
    if (service.store.events.find uuid).isNone then
      some { service with store := (service.store.reconcileKey uuid now update).2 }
    else none
  | .crash => some { service with processor := {} }

/-- A committed transaction is one that succeeded. -/
theorem commit_some {service after : Service}
    {result : Except ServiceError (TimeOffRequest × Store)}
    (committed : service.commit result = some after) :
    ∃ request store, result = .ok (request, store) ∧ after = { service with store } := by
  -- A failed transaction is no step.
  unfold commit at committed
  cases result with
  | error error => cases committed
  | ok pair =>
    cases committed
    exact ⟨pair.1, pair.2, rfl, rfl⟩

/-- Everything a step of the service can be. -/
inductive Move (before : Service) : ServiceAction → Service → Prop
  | creates (uuid : String) (dto : CreateTimeOffRequestDto) (idempotencyKey : Option String)
      (result : TimeOffRequest) (store : Store) :
      before.store.requests.find uuid = none →
      before.store.create uuid dto idempotencyKey = .ok (result, store) →
      Move before (.operate (.create uuid dto idempotencyKey)) { before with store }
  | submits (id uuid : String) (request result : TimeOffRequest) (store : Store) :
      before.store.requests.find id = some request →
      (before.store.balances.find request.pair).isSome = true →
      before.store.ledger.find uuid = none →
      before.store.submit id uuid = .ok (result, store) →
      Move before (.operate (.submit id uuid)) { before with store }
  | approves (id uuid : String) (now : Time) (result : TimeOffRequest) (store : Store) :
      before.store.outbox.find uuid = none →
      before.store.approve id uuid now = .ok (result, store) →
      Move before (.operate (.approve id uuid now)) { before with store }
  | rejects (id : String) (result : TimeOffRequest) (store : Store) :
      before.store.reject id = .ok (result, store) →
      Move before (.operate (.reject id)) { before with store }
  | cancels (id uuid : String) (now : Time) (result : TimeOffRequest) (store : Store) :
      before.store.outbox.find uuid = none →
      before.store.cancel id uuid now = .ok (result, store) →
      Move before (.operate (.cancel id uuid now)) { before with store }
  | drains (now : Time) :
      before.processor.draining = false →
      Move before (.operate (.drain now))
        { store := (before.store.claimDue now).2
          processor :=
            { draining := !(before.store.claimDue now).1.isEmpty
              due := (before.store.claimDue now).1, attempted := none } }
  | records (msg : OutboxMessage) (attempt : Attempt) (entryId eventId : String) (now : Time) :
      before.processor.attempted = some (msg, attempt) →
      before.store.ledger.find entryId = none → before.store.events.find eventId = none →
      Move before (.operate (.record entryId eventId now))
        { store := before.store.recordAttempt msg attempt entryId eventId now
          processor := before.processor.settled }
  | catches (msg : OutboxMessage) (ack : ApplyDeltaAck) (message : String) :
      before.processor.attempted = some (msg, .acked ack) →
      Move before (.operate (.recordFails message)) { before with
        processor := { before.processor with attempted := some (msg, .errored message) } }
  | escapes (msg : OutboxMessage) (attempt : Attempt) (message : String) :
      before.processor.attempted = some (msg, attempt) → (∀ ack, attempt ≠ .acked ack) →
      Move before (.operate (.recordFails message)) { before with processor := {} }
  | hears (msg : OutboxMessage) (rest : List OutboxMessage)
      (result : Except HcmError ApplyDeltaAck) :
      before.processor.due = msg :: rest → before.processor.attempted = none →
      Move before (.answer result) { before with
        processor := { before.processor with
          due := rest, attempted := some (msg, Attempt.ofResult result) } }
  | loads (employeeId locationId : String) (row : HcmBalanceRow) :
      Move before (.insertBalance employeeId locationId row)
        { before with store := before.store.insertBalance employeeId locationId row }
  | reconciles (uuid : String) (now : Time) (update : HcmBalanceUpdate) :
      before.store.events.find uuid = none →
      Move before (.reconcileKey uuid now update)
        { before with store := (before.store.reconcileKey uuid now update).2 }
  | crashes : Move before .crash { before with processor := {} }

variable {before after : Service}

/-- An operation is one of the moves. -/
theorem operate_move {operation : Operation} (taken : before.operate operation = some after) :
    Move before (.operate operation) after := by
  -- Each operation unfolds to its guard and its transaction.
  cases operation with
  | create uuid dto idempotencyKey =>
    simp only [operate] at taken
    split at taken
    · rename_i fresh
      obtain ⟨result, store, created, rfl⟩ := commit_some taken
      exact .creates uuid dto idempotencyKey result store (Option.isNone_iff_eq_none.mp fresh)
        created
    · cases taken
  | submit id uuid =>
    simp only [operate] at taken
    split at taken
    · cases taken
    · rename_i request found
      split at taken
      · rename_i ready
        obtain ⟨result, store, submitted, rfl⟩ := commit_some taken
        exact .submits id uuid request result store found ready.1
          (Option.isNone_iff_eq_none.mp ready.2) submitted
      · cases taken
  | approve id uuid now =>
    simp only [operate] at taken
    split at taken
    · rename_i fresh
      obtain ⟨result, store, approved, rfl⟩ := commit_some taken
      exact .approves id uuid now result store (Option.isNone_iff_eq_none.mp fresh) approved
    · cases taken
  | reject id =>
    obtain ⟨result, store, rejected, rfl⟩ := commit_some taken
    exact .rejects id result store rejected
  | cancel id uuid now =>
    simp only [operate] at taken
    split at taken
    · rename_i fresh
      obtain ⟨result, store, cancelled, rfl⟩ := commit_some taken
      exact .cancels id uuid now result store (Option.isNone_iff_eq_none.mp fresh) cancelled
    · cases taken
  | drain now =>
    simp only [operate] at taken
    split at taken
    · cases taken
    · rename_i idle
      cases taken
      exact .drains now (by simpa using idle)
  | record entryId eventId now =>
    simp only [operate] at taken
    split at taken
    · cases taken
    · rename_i msg attempt attempted
      split at taken
      · rename_i ready
        cases taken
        exact .records msg attempt entryId eventId now attempted
          (Option.isNone_iff_eq_none.mp ready.1) (Option.isNone_iff_eq_none.mp ready.2)
      · cases taken
  | recordFails message =>
    simp only [operate] at taken
    split at taken
    · cases taken
    · rename_i msg ack attempted
      cases taken
      exact .catches msg ack message attempted
    · rename_i pair notAcked attempted
      cases taken
      refine .escapes pair.1 pair.2 message attempted ?_
      intro ack acked
      exact notAcked pair.1 ack (by rw [← acked])

/-- A step is one of the moves. -/
theorem step_move {action : ServiceAction} (taken : before.step action = some after) :
    Move before action after := by
  cases action with
  | operate operation => exact operate_move taken
  | answer result =>
    simp only [step] at taken
    split at taken
    · rename_i msg rest due attempted
      cases taken
      exact .hears msg rest result due attempted
    · cases taken
  | insertBalance employeeId locationId row =>
    cases taken
    exact .loads employeeId locationId row
  | reconcileKey uuid now update =>
    simp only [step] at taken
    split at taken
    · rename_i fresh
      cases taken
      exact .reconciles uuid now update (Option.isNone_iff_eq_none.mp fresh)
    · cases taken
  | crash =>
    cases taken
    exact .crashes

/-- Every move can be taken. -/
theorem Move.taken {action : ServiceAction} (move : Move before action after) :
    before.step action = some after := by
  cases move with
  | creates _ _ _ _ _ fresh created => simp [step, operate, commit, fresh, created]
  | submits _ _ _ _ _ found cached fresh submitted =>
    simp [step, operate, commit, found, cached, fresh, submitted]
  | approves _ _ _ _ _ fresh approved => simp [step, operate, commit, fresh, approved]
  | rejects _ _ _ rejected => simp [step, operate, commit, rejected]
  | cancels _ _ _ _ _ fresh cancelled => simp [step, operate, commit, fresh, cancelled]
  | drains _ idle => simp [step, operate, idle]
  | records _ _ _ _ _ attempted entry event => simp [step, operate, attempted, entry, event]
  | catches _ _ _ attempted => simp [step, operate, attempted]
  | escapes _ attempt _ attempted notAcked =>
    cases attempt with
    | acked ack => exact absurd rfl (notAcked ack)
    | _ => simp [step, operate, attempted]
  | hears _ _ _ due attempted => simp [step, due, attempted]
  | loads => rfl
  | reconciles _ _ _ fresh => simp [step, fresh]
  | crashes => rfl

/-- The service before its first step. -/
def init : Service := {}

/-- The states the service reaches whatever the system of record answers. -/
abbrev Reachable : Service → Prop := Runs.Reachable step (fun _ _ => True) init

/-- Taking a list of steps from the start. -/
def run (actions : List ServiceAction) : Option Service :=
  Runs.run step (fun _ _ => true) init actions

/-- A run of the service, with the states it passes through. -/
abbrev Trace : List (Service × ServiceAction) → Service → Prop := Runs.Trace step init

/-- The states a run of the service passes through are reachable. -/
theorem Trace.reachable {taken : List (Service × ServiceAction)} {final state : Service}
    (trace : Trace taken final) (visited : Runs.Visits taken final state) : Reachable state :=
  Runs.Trace.reachable_of_visits trace (fun _ _ _ => trivial) visited

/-- A list of steps that can be taken is a run. -/
theorem exists_trace_of_run {actions : List ServiceAction}
    (executed : (run actions).isSome = true) :
    ∃ taken final, Trace taken final ∧ taken.map Prod.snd = actions := by
  -- The executed list is extended from the empty trace.
  obtain ⟨final, ended⟩ := Option.isSome_iff_exists.mp executed
  obtain ⟨taken, trace, same, _⟩ := Runs.trace_of_run .start ended
  exact ⟨taken, final, trace, same⟩

/-- What a list of steps ends in is reachable. -/
theorem exists_reachable_of_run {actions : List ServiceAction} {test : Service → Bool}
    (executed : (run actions).map test = some true) :
    ∃ service, Reachable service ∧ test service = true :=
  Runs.exists_reachable_of_run (fun _ _ _ => trivial) executed

end Service

end TimeOff
