import TimeOff.Lifecycle.Coherence
import TimeOff.Transport.OnceOnly

/-!
The service and the system of record as two processes.

Deliveries and balance reads share one HTTP client, and a request may arrive after its caller has
given it up, after the service has gone on, and after the service was started again.
-/

namespace TimeOff

/-- What a balance is read for. -/
inductive ReadPurpose where
  | firstLoad
  | reconcileAll
  deriving DecidableEq, Repr

/-- A balance that is being read, with the number of the call. -/
structure PendingRead where
  call : Nat
  purpose : ReadPurpose
  employeeId : String
  locationId : String
  deriving DecidableEq, Repr

/-- The two processes, and the calls between them. -/
structure Deployment where
  service : Service := {}
  exchange : Exchange
  -- The delivery that the processor awaits.
  awaited : Option Nat := none
  -- The reads that are awaited, each by a first load or a reconcile-all of its own.
  reads : List PendingRead := []
  -- The calls of processes that have ended: nobody is told what becomes of them.
  orphaned : Nat := 0

/-- Every step of the two processes and of the network. -/
inductive DeploymentAction where
  | operate (operation : Operation)
  -- The next claimed message is handed to the client.
  | deliver (now : Time)
  -- The processor goes on with what the client has told it.
  | hear
  | read (purpose : ReadPurpose) (employeeId locationId : String) (now : Time)
  -- A read goes on with the row it was told, or ends with the error.
  | finishRead (index : Nat) (uuid : String) (now : Time)
  -- A webhook or a batch delivers an update, whatever it says.
  | ingest (uuid : String) (now : Time) (update : HcmBalanceUpdate)
  | arrive (index : Nat) (now : Time)
  | respond (index : Nat) (now : Time)
  | fail (index : Nat) (error : String) (now : Time)
  | lose (index : Nat) (error : String) (now : Time)
  | control (control : HcmControl) (now : Time)
  -- The process of the service stops and starts again, with a new client of the same options.
  | crash
  deriving DecidableEq, Repr

/-- An answer to a delivery. -/
def HcmAnswer.acked : Except HcmError HcmAnswer → Option (Except HcmError ApplyDeltaAck)
  | .ok (.ack given) => some (.ok given)
  | .ok (.row _) | .ok (.corpus _) => none
  | .error error => some (.error error)

/-- What the caller of a call was told, once it was told something. -/
def Exchange.told (exchange : Exchange) (index : Nat) : Option (Except HcmError HcmAnswer) :=
  exchange.calls[index]?.bind (·.answered)

/-- The update that a row read by a reconcile-all is reconciled as. -/
def HcmBalanceRow.pulled (row : HcmBalanceRow) (employeeId locationId : String) :
    HcmBalanceUpdate :=
  { employeeId, locationId, balance := row.balance, version := row.version, asOf := some row.asOf }

namespace Deployment

/-- Let the service take a step of its own. -/
def serve (deployment : Deployment) (action : ServiceAction) : Option Deployment :=
  (deployment.service.step action).map fun service => { deployment with service }

/-- Let the client, the network or the server take a step of their own. -/
def pass (deployment : Deployment) (action : ExchangeAction) : Option Deployment :=
  (deployment.exchange.step action).map fun exchange => { deployment with exchange }

/-- Go on with what a read was told. -/
def finish (deployment : Deployment) (read : PendingRead) (uuid : String) (now : Time) :
    Option Deployment :=
  match deployment.exchange.told read.call with
  | some (.ok (.row row)) =>
    match read.purpose with
    | .firstLoad => deployment.serve (.insertBalance read.employeeId read.locationId row)
    | .reconcileAll =>
      deployment.serve (.reconcileKey uuid now (row.pulled read.employeeId read.locationId))
  | some (.ok (.corpus _)) =>
    match read.purpose with
    | .firstLoad =>
      deployment.serve (.insertBalance read.employeeId read.locationId
        (.blank read.employeeId read.locationId now))
    -- A version that is missing is not stale, but it writes neither a balance nor a version.
    | .reconcileAll => some deployment
  -- A first load throws, and a reconcile-all skips the pair.
  | some (.error _) => some deployment
  | some (.ok (.ack _)) | none => none

/-- One step of the two processes and of the network. -/
def step (deployment : Deployment) : DeploymentAction → Option Deployment
  | .operate operation => deployment.serve (.operate operation)
  | .deliver now =>
    match deployment.service.processor.due, deployment.service.processor.attempted,
      deployment.awaited with
    | msg :: _, none, none =>
      ({ deployment with awaited := some deployment.exchange.calls.length }).pass
        (.call (.applyDelta msg.command) now)
    | _, _, _ => none
  | .hear =>
    match (deployment.awaited.bind deployment.exchange.told).bind HcmAnswer.acked with
    | some result => ({ deployment with awaited := none }).serve (.answer result)
    | none => none
  | .read purpose employeeId locationId now =>
    -- A reconcile-all asks only about the pairs that are cached.
    if purpose = .reconcileAll ∧
        (deployment.service.store.balances.find (employeeId, locationId)).isNone then none
    else
      let read : PendingRead :=
        { call := deployment.exchange.calls.length, purpose, employeeId, locationId }
      ({ deployment with reads := deployment.reads ++ [read] }).pass
        (.call (.getBalance employeeId locationId) now)
  | .finishRead index uuid now =>
    match deployment.reads[index]? with
    | none => none
    | some read =>
      ({ deployment with reads := deployment.reads.eraseIdx index }).finish read uuid now
  | .ingest uuid now update => deployment.serve (.reconcileKey uuid now update)
  | .arrive index now => deployment.pass (.arrive index now)
  | .respond index now =>
    if deployment.orphaned ≤ index then deployment.pass (.respond index now) else none
  | .fail index error now =>
    if deployment.orphaned ≤ index then deployment.pass (.fail index error now) else none
  | .lose index error now =>
    if deployment.orphaned ≤ index then deployment.pass (.lose index error now) else none
  | .control control now => deployment.pass (.control control now)
  | .crash =>
    ({ deployment with
      exchange := { deployment.exchange with
        client := { breaker := { opts := deployment.exchange.client.breaker.opts } } }
      awaited := none, reads := [], orphaned := deployment.exchange.calls.length }).serve .crash

/-- Two new processes, with a client of some options. -/
def init (failureThreshold cooldownMs : Option Int) : Deployment :=
  { exchange := Exchange.init (HttpHcmClient.create failureThreshold cooldownMs) {} }

/-- The states that are reached by steps that are each allowed where they are taken. -/
abbrev Reachable (allowed : Deployment → DeploymentAction → Prop)
    (failureThreshold cooldownMs : Option Int) : Deployment → Prop :=
  Runs.Reachable step allowed (init failureThreshold cooldownMs)

/-- The steps that never reset the system of record. -/
def WithoutReset (_ : Deployment) : DeploymentAction → Prop
  | .control .reset _ => False
  | _ => True

instance (deployment : Deployment) :
    (action : DeploymentAction) → Decidable (deployment.WithoutReset action)
  | .control .reset _ => .isFalse id
  | .control (.faults _) _ | .control (.seed _ _ _) _ | .control (.adjust _ _ _) _
  | .operate _ | .deliver _ | .hear | .read _ _ _ _ | .finishRead _ _ _ | .ingest _ _ _
  | .arrive _ _ | .respond _ _ | .fail _ _ _ | .lose _ _ _ | .crash => .isTrue trivial

/-- A read has been told a row for a pair. -/
def Told (deployment : Deployment) (employeeId locationId : String) (row : HcmBalanceRow) : Prop :=
  ∃ read ∈ deployment.reads, read.employeeId = employeeId ∧ read.locationId = locationId ∧
    deployment.exchange.told read.call = some (.ok (.row row))

/-- A read has been told the corpus in place of the row of a pair. -/
def Misled (deployment : Deployment) (employeeId locationId : String) : Prop :=
  ∃ read ∈ deployment.reads, read.employeeId = employeeId ∧ read.locationId = locationId ∧
    ∃ rows, deployment.exchange.told read.call = some (.ok (.corpus rows))

/-- Everything a step can do, with the part that takes it. -/
inductive Effect (before : Deployment) (action : DeploymentAction) (after : Deployment) : Prop
  -- The service takes a step of its own.
  | serves (serviceAction : ServiceAction) :
      (∀ result, serviceAction ≠ .answer result) → serviceAction ≠ .crash →
      before.service.step serviceAction = some after.service →
      after.exchange = before.exchange → after.awaited = before.awaited →
      after.orphaned = before.orphaned → (∀ read ∈ after.reads, read ∈ before.reads) →
      -- What is cached was told to a read, and what is reconciled was so or came by itself.
      (∀ employeeId locationId row,
        serviceAction = .insertBalance employeeId locationId row →
          before.Told employeeId locationId row ∨ before.Misled employeeId locationId ∧
            ∃ now, row = .blank employeeId locationId now) →
      (∀ uuid now update, serviceAction = .reconcileKey uuid now update →
        action = .ingest uuid now update ∨ ∃ employeeId locationId row,
          update = row.pulled employeeId locationId ∧ before.Told employeeId locationId row) →
      -- A transaction of a request is called by itself.
      (∀ operation, serviceAction = .operate operation → action = .operate operation) →
      Effect before action after
  -- A delivery is handed to the client.
  | sends (msg : OutboxMessage) (rest : List OutboxMessage) (now : Time) :
      before.service.processor.due = msg :: rest → before.service.processor.attempted = none →
      before.awaited = none →
      before.exchange.step (.call (.applyDelta msg.command) now) = some after.exchange →
      after.service = before.service →
      after.awaited = some before.exchange.calls.length → after.orphaned = before.orphaned →
      after.reads = before.reads → Effect before action after
  | hears (index : Nat) (told : Except HcmError HcmAnswer)
      (result : Except HcmError ApplyDeltaAck) :
      before.awaited = some index → before.exchange.told index = some told →
      HcmAnswer.acked told = some result →
      before.service.step (.answer result) = some after.service →
      after.exchange = before.exchange → after.awaited = none →
      after.orphaned = before.orphaned → after.reads = before.reads → Effect before action after
  -- A balance is asked for.
  | asks (employeeId locationId : String) (now : Time) :
      before.exchange.step (.call (.getBalance employeeId locationId) now) = some after.exchange →
      after.service = before.service → after.awaited = before.awaited →
      after.orphaned = before.orphaned →
      (∀ read ∈ after.reads, read ∈ before.reads ∨ read.call = before.exchange.calls.length ∧
        read.employeeId = employeeId ∧ read.locationId = locationId) →
      Effect before action after
  -- The network or the server takes a step, which makes no call.
  | passes (exchangeAction : ExchangeAction) :
      (∀ call now, exchangeAction ≠ .call call now) →
      (∀ control now, exchangeAction = .control control now → action = .control control now) →
      before.exchange.step exchangeAction = some after.exchange →
      after.service = before.service → after.awaited = before.awaited →
      after.orphaned = before.orphaned → after.reads = before.reads → Effect before action after
  -- A read ends with an error.
  | gives :
      after.service = before.service → after.exchange = before.exchange →
      after.awaited = before.awaited → after.orphaned = before.orphaned →
      (∀ read ∈ after.reads, read ∈ before.reads) → Effect before action after
  | crashes (client : HttpHcmClient) :
      before.service.step .crash = some after.service →
      after.exchange = { before.exchange with client } → after.awaited = none →
      after.orphaned = before.exchange.calls.length → after.reads = [] → Effect before action after

variable {before after deployment : Deployment} {action : DeploymentAction}

/-- A served step changes the service and nothing else. -/
theorem serve_some {action : ServiceAction} (served : deployment.serve action = some after) :
    ∃ service, deployment.service.step action = some service ∧
      after = { deployment with service } := by
  obtain ⟨service, moved, rfl⟩ := Option.map_eq_some_iff.mp served
  exact ⟨service, moved, rfl⟩

/-- A step of the network changes the exchange and nothing else. -/
theorem pass_some {action : ExchangeAction} (passed : deployment.pass action = some after) :
    ∃ exchange, deployment.exchange.step action = some exchange ∧
      after = { deployment with exchange } := by
  obtain ⟨exchange, moved, rfl⟩ := Option.map_eq_some_iff.mp passed
  exact ⟨exchange, moved, rfl⟩

/-- A step is one of these effects. -/
theorem step_effect (taken : before.step action = some after) : Effect before action after := by
  -- Each action unfolds to its guard and to the step of one of the parts.
  cases action with
  | operate operation =>
    obtain ⟨service, moved, rfl⟩ := serve_some taken
    refine .serves _ (by simp) (by simp) moved rfl rfl rfl (fun _ kept => kept) (by simp)
      (by simp) ?_
    intro _ same
    cases same
    rfl
  | deliver now =>
    simp only [step] at taken
    split at taken
    · rename_i msg rest due idle free
      obtain ⟨exchange, moved, rfl⟩ := pass_some taken
      exact .sends msg rest now due idle free moved rfl rfl rfl rfl
    · cases taken
  | hear =>
    simp only [step] at taken
    split at taken
    · rename_i result heard
      obtain ⟨told, known, acked⟩ := Option.bind_eq_some_iff.mp heard
      obtain ⟨index, awaited, told_⟩ := Option.bind_eq_some_iff.mp known
      obtain ⟨service, moved, rfl⟩ := serve_some taken
      exact .hears index told result awaited told_ acked moved rfl rfl rfl rfl
    · cases taken
  | read purpose employeeId locationId now =>
    simp only [step] at taken
    split at taken
    · cases taken
    · obtain ⟨exchange, moved, rfl⟩ := pass_some taken
      refine .asks employeeId locationId now moved rfl rfl rfl fun read member => ?_
      -- Of the reads that are awaited, the last one is new.
      rcases List.mem_append.mp member with old | new
      · exact Or.inl old
      · cases List.mem_singleton.mp new
        exact Or.inr ⟨rfl, rfl, rfl⟩
  | finishRead index uuid now =>
    simp only [step] at taken
    split at taken
    · cases taken
    · rename_i read found
      have fewer : ∀ other ∈ before.reads.eraseIdx index, other ∈ before.reads :=
        fun _ member => List.mem_of_mem_eraseIdx member
      have listed := List.mem_of_getElem? found
      simp only [finish] at taken
      split at taken
      · rename_i row told
        have known : before.Told read.employeeId read.locationId row :=
          ⟨read, listed, rfl, rfl, told⟩
        -- A first load writes the row, and a reconcile-all reconciles it.
        split at taken
        · obtain ⟨service, moved, rfl⟩ := serve_some taken
          refine .serves _ (by simp) (by simp) moved rfl rfl rfl fewer ?_ (by simp) (by simp)
          intro _ _ _ same
          cases same
          exact Or.inl known
        · obtain ⟨service, moved, rfl⟩ := serve_some taken
          refine .serves _ (by simp) (by simp) moved rfl rfl rfl fewer (by simp) ?_ (by simp)
          intro _ _ _ same
          cases same
          exact Or.inr ⟨read.employeeId, read.locationId, row, rfl, known⟩
      · rename_i rows told
        -- Without a row, a first load writes the defaults, and a reconcile-all nothing.
        split at taken
        · obtain ⟨service, moved, rfl⟩ := serve_some taken
          refine .serves _ (by simp) (by simp) moved rfl rfl rfl fewer ?_ (by simp) (by simp)
          intro _ _ _ same
          cases same
          exact Or.inr ⟨⟨read, listed, rfl, rfl, rows, told⟩, now, rfl⟩
        · cases taken
          exact .gives rfl rfl rfl rfl fewer
      · cases taken
        exact .gives rfl rfl rfl rfl fewer
      · cases taken
      · cases taken
  | ingest uuid now update =>
    obtain ⟨service, moved, rfl⟩ := serve_some taken
    refine .serves _ (by simp) (by simp) moved rfl rfl rfl (fun _ kept => kept) (by simp) ?_
      (by simp)
    intro _ _ _ same
    cases same
    exact Or.inl rfl
  | arrive index now =>
    obtain ⟨exchange, moved, rfl⟩ := pass_some taken
    exact .passes _ (by simp) (by simp) moved rfl rfl rfl rfl
  | respond index now =>
    simp only [step] at taken
    split at taken
    · obtain ⟨exchange, moved, rfl⟩ := pass_some taken
      exact .passes _ (by simp) (by simp) moved rfl rfl rfl rfl
    · cases taken
  | fail index error now =>
    simp only [step] at taken
    split at taken
    · obtain ⟨exchange, moved, rfl⟩ := pass_some taken
      exact .passes _ (by simp) (by simp) moved rfl rfl rfl rfl
    · cases taken
  | lose index error now =>
    simp only [step] at taken
    split at taken
    · obtain ⟨exchange, moved, rfl⟩ := pass_some taken
      exact .passes _ (by simp) (by simp) moved rfl rfl rfl rfl
    · cases taken
  | control control now =>
    obtain ⟨exchange, moved, rfl⟩ := pass_some taken
    exact .passes _ (by simp) (by simp) moved rfl rfl rfl rfl
  | crash =>
    obtain ⟨service, moved, rfl⟩ := serve_some taken
    exact .crashes _ moved rfl rfl rfl rfl

/-- The service takes a step of its own in a step of the deployment, or none. -/
theorem served_of_step (taken : before.step action = some after) :
    after.service = before.service ∨
      ∃ serviceAction, before.service.step serviceAction = some after.service ∧
        ∀ operation, serviceAction = .operate operation → action = .operate operation := by
  -- The service moves alone, hears an answer, or stops.
  cases step_effect taken with
  | serves serviceAction _ _ moved _ _ _ _ _ _ operates =>
    exact Or.inr ⟨serviceAction, moved, operates⟩
  | sends _ _ _ _ _ _ _ same => exact Or.inl same
  | hears _ _ result _ _ _ moved => exact Or.inr ⟨.answer result, moved, by simp⟩
  | asks _ _ _ _ same => exact Or.inl same
  | passes _ _ _ _ same => exact Or.inl same
  | gives same => exact Or.inl same
  | crashes _ moved => exact Or.inr ⟨.crash, moved, by simp⟩

theorem step_service (taken : before.step action = some after) :
    after.service = before.service ∨
      ∃ serviceAction, before.service.step serviceAction = some after.service :=
  (served_of_step taken).imp_right fun ⟨serviceAction, moved, _⟩ => ⟨serviceAction, moved⟩

/-- Where nothing is reset, the network resets nothing. -/
theorem WithoutReset.exchange {exchangeAction : ExchangeAction} (kept : before.WithoutReset action)
    (controls : ∀ control now, exchangeAction = .control control now →
      action = .control control now) : before.exchange.WithoutReset exchangeAction := by
  -- Of the steps of an exchange, only a control can be a reset.
  cases exchangeAction with
  | control control now =>
    cases control with
    | reset => exact absurd kept (controls _ now rfl ▸ id)
    | faults | seed | adjust => exact trivial
  | call | arrive | respond | fail | lose => exact trivial

variable {allowed : Deployment → DeploymentAction → Prop}
  {failureThreshold cooldownMs : Option Int}

/-- In every reachable state, the service is in one of its reachable states. -/
theorem Reachable.service
    (reached : Deployment.Reachable allowed failureThreshold cooldownMs deployment) :
    Service.Reachable deployment.service := by
  -- Each step of the deployment is one of the service, or leaves it where it is.
  refine Runs.Reachable.simulate Deployment.service ?_ reached
  intro before action after _ taken
  exact (step_service taken).imp id fun ⟨serviceAction, moved⟩ => ⟨serviceAction, trivial, moved⟩

end Deployment

end TimeOff
