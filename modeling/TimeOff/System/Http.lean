import TimeOff.Hcm.HttpHcmClient
import TimeOff.System.Service

/-!
The service over the HTTP client.

The guard of a call and its reply are separate steps, so calls overlap and share one circuit.
-/

namespace TimeOff

/-- The service together with its client. -/
structure HttpSystem where
  service : Service := {}
  -- One client serves the deliveries and the balance reads.
  client : HttpHcmClient := HttpHcmClient.create none none
  -- Whether the reply to the first claimed message is awaited.
  awaiting : Bool := false
  -- How many balance reads await their reply.
  reads : Nat := 0
  -- Bookkeeping for statements: the messages that were sent, and whether the circuit let the
  -- latest delivery through.
  sent : List String := []
  admitted : Bool := true

/-- Every step of the service over the HTTP client. -/
inductive HttpAction where
  | operate (operation : Operation)
  -- The next claimed message is delivered: it is sent, or fails fast.
  | deliver (now : Time)
  | receive (reply : HttpReply ApplyDeltaAck) (now : Time)
  -- A balance is read for a first load, a reconcile-all or a health check.
  | read (now : Time)
  | receiveRead (reply : HttpReply HcmBalanceRow) (now : Time)
  | insertBalance (employeeId locationId : String) (row : HcmBalanceRow)
  | reconcileKey (uuid : String) (now : Time) (update : HcmBalanceUpdate)
  -- The process starts again, with a new client of the same options.
  | crash
  deriving DecidableEq, Repr

namespace HttpSystem

/-- Let the service take a step of its own. -/
def serve (system : HttpSystem) (action : ServiceAction) : Option HttpSystem :=
  (system.service.step action).map fun service => { system with service }

/-- Hand the next claimed message to the client, which sends it unless the circuit is open. -/
def deliver (system : HttpSystem) (now : Time) : Option HttpSystem :=
  match system.service.processor.due, system.service.processor.attempted, system.awaiting with
  | msg :: _, none, false =>
    -- Asking the circuit may move it to half-open, also when the call is refused.
    let (client, admitted) := system.client.enter now
    if admitted then
      some { system with client, admitted, awaiting := true, sent := system.sent ++ [msg.id] }
    else
      ({ system with client, admitted }).serve (.answer (.error HttpHcmClient.circuitOpen))
  | _, _, _ => none

/-- One step of the service over the HTTP client. -/
def step (system : HttpSystem) : HttpAction → Option HttpSystem
  | .operate operation => system.serve (.operate operation)
  | .deliver now => system.deliver now
  | .receive reply now =>
    if system.awaiting then
      -- The reply is recorded by the circuit before the service hears of it.
      let (client, result) := system.client.guarded now reply
      ({ system with client, awaiting := false }).serve (.answer result)
    else none
  | .read now =>
    let (client, admitted) := system.client.enter now
    some { system with client, reads := if admitted then system.reads + 1 else system.reads }
  | .receiveRead reply now =>
    if 0 < system.reads then
      some { system with
        client := (system.client.guarded now reply).1, reads := system.reads - 1 }
    else none
  | .insertBalance employeeId locationId row =>
    system.serve (.insertBalance employeeId locationId row)
  | .reconcileKey uuid now update => system.serve (.reconcileKey uuid now update)
  | .crash =>
    ({ system with
      client := { breaker := { opts := system.client.breaker.opts } }
      awaiting := false, reads := 0 }).serve .crash

/-- The service and its client before their first step. -/
def init (failureThreshold cooldownMs : Option Int) : HttpSystem :=
  { client := HttpHcmClient.create failureThreshold cooldownMs }

/-- A run of the service over a client with given options. -/
abbrev Trace (failureThreshold cooldownMs : Option Int) :
    List (HttpSystem × HttpAction) → HttpSystem → Prop :=
  Runs.Trace step (init failureThreshold cooldownMs)

/-- The states that the service reaches over a client with the default options. -/
abbrev Reachable : HttpSystem → Prop := Runs.Reachable step (fun _ _ => True) (init none none)

/-- Taking a list of steps from the start, over a client with the default options. -/
def run (actions : List HttpAction) : Option HttpSystem :=
  Runs.run step (fun _ _ => true) (init none none) actions

/-- How often a message was sent. -/
def sends (system : HttpSystem) (id : String) : Int :=
  system.sent.count id

/-- Everything a step can do, with the part of the system that takes it. -/
inductive Effect (before : HttpSystem) (action : HttpAction) (after : HttpSystem) : Prop
  -- The service takes a step of its own.
  | serves (serviceAction : ServiceAction) :
      (∀ operation, serviceAction = .operate operation ↔ action = .operate operation) →
      (∀ result, serviceAction ≠ .answer result) → serviceAction ≠ .crash →
      before.service.step serviceAction = some after.service →
      after.awaiting = before.awaiting → after.sent = before.sent →
      after.admitted = before.admitted → Effect before action after
  -- A message is sent.
  | sends (msg : OutboxMessage) (rest : List OutboxMessage) (now : Time) :
      action = .deliver now → before.client.breaker.canAttempt now = true →
      before.service.processor.due = msg :: rest → before.service.processor.attempted = none →
      before.awaiting = false → after.service = before.service → after.awaiting = true →
      after.sent = before.sent ++ [msg.id] → after.admitted = true → Effect before action after
  -- A delivery fails fast.
  | refuses (now : Time) :
      action = .deliver now → before.client.breaker.canAttempt now = false →
      before.service.step (.answer (.error HttpHcmClient.circuitOpen)) = some after.service →
      before.awaiting = false → after.awaiting = false → after.sent = before.sent →
      after.admitted = false → Effect before action after
  -- The reply to the message that was sent arrives.
  | receives (result : Except HcmError ApplyDeltaAck) :
      (∀ operation, action ≠ .operate operation) → before.awaiting = true →
      before.service.step (.answer result) = some after.service →
      after.awaiting = false → after.sent = before.sent → after.admitted = before.admitted →
      Effect before action after
  -- A read concerns the circuit only.
  | reads :
      (∀ operation, action ≠ .operate operation) → after.service = before.service →
      after.awaiting = before.awaiting → after.sent = before.sent →
      after.admitted = before.admitted → Effect before action after
  | crashes :
      action = .crash → before.service.step .crash = some after.service →
      after.awaiting = false → after.sent = before.sent → after.admitted = before.admitted →
      Effect before action after

variable {before after : HttpSystem} {action : HttpAction}

/-- A served step changes the service and nothing else. -/
theorem serve_some {system after : HttpSystem} {action : ServiceAction}
    (served : system.serve action = some after) :
    ∃ service, system.service.step action = some service ∧ after = { system with service } := by
  -- A refused step of the service is no step of the system either.
  obtain ⟨service, moved, rfl⟩ := Option.map_eq_some_iff.mp served
  exact ⟨service, moved, rfl⟩

/-- A step of the service over the HTTP client is one of these effects. -/
theorem step_effect (taken : before.step action = some after) : Effect before action after := by
  -- The circuit decides a delivery, and everything else follows its own guard.
  cases action with
  | operate operation =>
    obtain ⟨service, moved, rfl⟩ := serve_some taken
    exact .serves _ (by simp) (by simp) (by simp) moved rfl rfl rfl
  | insertBalance employeeId locationId row =>
    obtain ⟨service, moved, rfl⟩ := serve_some taken
    exact .serves _ (by simp) (by simp) (by simp) moved rfl rfl rfl
  | reconcileKey uuid now update =>
    obtain ⟨service, moved, rfl⟩ := serve_some taken
    exact .serves _ (by simp) (by simp) (by simp) moved rfl rfl rfl
  | deliver now =>
    simp only [step, deliver, HttpHcmClient.enter] at taken
    split at taken
    · rename_i msg rest due attempted idle
      cases admitted : before.client.breaker.canAttempt now with
      | true =>
        simp only [admitted, if_true] at taken
        cases taken
        exact .sends msg rest now rfl admitted due attempted idle rfl rfl rfl rfl
      | false =>
        simp only [admitted, Bool.false_eq_true, if_false] at taken
        obtain ⟨service, moved, rfl⟩ := serve_some taken
        exact .refuses now rfl admitted moved idle idle rfl rfl
    · cases taken
  | receive reply now =>
    simp only [step] at taken
    split at taken
    · rename_i awaiting
      obtain ⟨service, moved, rfl⟩ := serve_some taken
      exact .receives _ (by simp) awaiting moved rfl rfl rfl
    · cases taken
  | read now =>
    cases taken
    exact .reads (by simp) rfl rfl rfl rfl
  | receiveRead reply now =>
    simp only [step] at taken
    split at taken
    · cases taken
      exact .reads (by simp) rfl rfl rfl rfl
    · cases taken
  | crash =>
    obtain ⟨service, moved, rfl⟩ := serve_some taken
    exact .crashes rfl moved rfl rfl rfl

/-- The service of every state that a run passes through is reachable. -/
theorem Trace.service {failureThreshold cooldownMs : Option Int}
    {taken : List (HttpSystem × HttpAction)} {final state : HttpSystem}
    (trace : HttpSystem.Trace failureThreshold cooldownMs taken final)
    (visited : Runs.Visits taken final state) : Service.Reachable state.service := by
  -- Sending and reading are stuttering steps, since the service hears nothing yet.
  have reached : Runs.Reachable step (fun _ _ => True) (init failureThreshold cooldownMs) state :=
    Runs.Trace.reachable_of_visits trace (fun _ _ _ => trivial) visited
  refine Runs.Reachable.simulate HttpSystem.service ?_ reached
  intro before action after _ taken
  cases step_effect taken with
  | serves serviceAction _ _ _ moved => exact Or.inr ⟨serviceAction, trivial, moved⟩
  | sends _ _ _ _ _ _ _ _ same => exact Or.inl same
  | refuses _ _ _ moved => exact Or.inr ⟨_, trivial, moved⟩
  | receives result _ _ moved => exact Or.inr ⟨.answer result, trivial, moved⟩
  | reads _ same => exact Or.inl same
  | crashes _ moved => exact Or.inr ⟨.crash, trivial, moved⟩

end HttpSystem

end TimeOff
