import TimeOff.System.Service

/-!
The service composed with the simulated system of record.

Each database transaction and each call is one step, and a history remembers what happened.
-/

namespace TimeOff

/-- One change of a row's version, with the command that caused it, if one did. -/
structure Posting where
  rowKey : String
  version : Int
  delta : Int
  cause : Option String
  deriving DecidableEq, Repr

/-- What the run has seen so far: bookkeeping for statements, read by no step of the service. -/
structure History where
  -- Every row the system of record has held.
  rows : List HcmBalanceRow := []
  -- Every change it made, in order.
  postings : List Posting := []
  -- The copies of the messages that drains have claimed.
  claimed : List OutboxMessage := []

namespace HcmCore

/-- The balance shown under a key, zero before there is a row. -/
def balanceOf (core : HcmCore) (k : String) : Int :=
  ((core.balances.find k).map (·.balance)).getD 0

/-- The version shown under a key, zero before there is a row. -/
def versionOf (core : HcmCore) (k : String) : Int :=
  ((core.balances.find k).map (·.version)).getD 0

end HcmCore

/-- The posting that explains how a row changed between two moments. -/
def postingBetween (before after : HcmCore) (k : String) (cause : Option String) : List Posting :=
  -- A row changes its balance only together with its version.
  if after.versionOf k = before.versionOf k then []
  else
    [{ rowKey := k, version := after.versionOf k
       delta := after.balanceOf k - before.balanceOf k, cause }]

/-- Remember what one call did to the row under a key. -/
def History.observe (history : History) (before after : HcmCore) (k : String)
    (cause : Option String) : History :=
  { history with
    -- A row that was not touched is remembered again, which says nothing new.
    rows := history.rows ++ after.dumpCorpus
    postings := history.postings ++ postingBetween before after k cause }

/-- The changes of a balance that one idempotency key caused. -/
def History.changesBy (history : History) (idempotencyKey : String) : List Posting :=
  history.postings.filter fun posting =>
    posting.cause = some idempotencyKey ∧ posting.delta ≠ 0

/-- The net effect of one idempotency key. -/
def History.effectOf (history : History) (idempotencyKey : String) : Int :=
  ((history.changesBy idempotencyKey).map (·.delta)).sum

/-- The net effect of a request: what its debit and its credit did to the balance. -/
def History.netEffect (history : History) (id : String) : Int :=
  history.effectOf (debitKey id) + history.effectOf (creditKey id)

/-- A row read by a first load and not inserted yet. -/
structure PendingLoad where
  employeeId : String
  locationId : String
  row : HcmBalanceRow

/-- The whole system. -/
structure System where
  -- The service, with its own database.
  service : Service := {}
  hcm : HcmCore := {}
  -- First loads between their read and their insert.
  loads : List PendingLoad := []
  -- Rows a reconcile-all has read and not reconciled yet.
  pulls : List HcmBalanceUpdate := []
  -- What the statements talk about, never read by a step of the two sides.
  history : History := {}

/-- What happens to a delivery on the network. -/
inductive Fate where
  | answered
  -- The call is made, but its answer is lost and reported as a transient failure.
  | answerLost
  -- The call never reaches the other side.
  | requestLost
  deriving DecidableEq, Repr

/-- Every step of the composed system. -/
inductive Action where
  | operate (operation : Operation)
  | deliver (fate : Fate) (now : Time)
  -- A first load reads its row, and later inserts it or leaves the stored one.
  | readBalance (employeeId locationId : String) (now : Time)
  | insertBalance (index : Nat)
  -- A reconcile-all reads the row of a cached key, and later reconciles it.
  | pull (employeeId locationId : String) (now : Time)
  | reconcilePulled (index : Nat) (uuid : String) (now : Time)
  -- The realtime or batch channel delivers a row that was held at some time.
  | ingest (uuid : String) (now : Time) (row : HcmBalanceRow)
  | crash
  | seed (employeeId locationId : String) (balance : Int) (now : Time)
  | adjust (employeeId locationId : String) (delta : Int) (now : Time)
  | configureFaults (patch : HcmFaultPatch)
  deriving DecidableEq, Repr

/-- The failure a lost message is reported as. -/
def transportError : HcmError :=
  .unavailable "HCM transport error"

/-- The update a row is delivered as. -/
def HcmBalanceRow.update (row : HcmBalanceRow) : HcmBalanceUpdate :=
  { employeeId := row.employeeId, locationId := row.locationId
    balance := row.balance, version := row.version, asOf := some row.asOf }

namespace System

/-- Let the service take a step of its own. -/
def serve (system : System) (action : ServiceAction) : Option System :=
  (system.service.step action).map fun service => { system with service }

/-- Replace the system of record after a call that concerned one key. -/
def observed (system : System) (hcm : HcmCore) (k : String) (cause : Option String) : System :=
  { system with hcm, history := system.history.observe system.hcm hcm k cause }

/-- Hand the next claimed message over, and hear the answer or a transport failure. -/
def deliver (system : System) (fate : Fate) (now : Time) : Option System :=
  match system.service.processor.due, system.service.processor.attempted with
  | msg :: _, none =>
    if fate = .requestLost then system.serve (.answer (.error transportError))
    else
      let cmd := msg.command
      let (hcm, result) := system.hcm.applyDelta now cmd
      -- The call has had its effect by the time its answer is lost.
      let heard := if fate = .answerLost then .error transportError else result
      (system.observed hcm (key cmd.employeeId cmd.locationId) (some cmd.idempotencyKey)).serve
        (.answer heard)
  | _, _ => none

/-- The messages a drain claims. -/
def claims (system : System) : Operation → List OutboxMessage
  | .drain now => (system.service.store.claimDue now).1
  | _ => []

/-- One step of the composed system. -/
def step (system : System) : Action → Option System
  | .operate operation =>
    -- The claimed copies are remembered, since the database keeps only the rows.
    (system.serve (.operate operation)).map fun after =>
      { after with history :=
          { after.history with claimed := after.history.claimed ++ system.claims operation } }
  | .deliver fate now => system.deliver fate now
  | .readBalance employeeId locationId now =>
    match system.hcm.getBalance now employeeId locationId with
    | .error _ => none
    | .ok (hcm, row) =>
      some { system.observed hcm (key employeeId locationId) none with
        loads := system.loads ++ [{ employeeId, locationId, row }] }
  | .insertBalance index =>
    match system.loads[index]? with
    | none => none
    | some load =>
      ({ system with loads := system.loads.eraseIdx index }).serve
        (.insertBalance load.employeeId load.locationId load.row)
  | .pull employeeId locationId now =>
    -- A reconcile-all asks only about the keys that are cached.
    if (system.service.store.balances.find (employeeId, locationId)).isSome then
      match system.hcm.getBalance now employeeId locationId with
      | .error _ => none
      | .ok (hcm, row) =>
        some { system.observed hcm (key employeeId locationId) none with
          pulls := system.pulls ++
            [{ employeeId, locationId, balance := row.balance, version := row.version
               asOf := some row.asOf }] }
    else none
  | .reconcilePulled index uuid now =>
    match system.pulls[index]? with
    | none => none
    | some update =>
      ({ system with pulls := system.pulls.eraseIdx index }).serve
        (.reconcileKey uuid now update)
  | .ingest uuid now row =>
    -- The network may repeat, delay and reorder rows, but it makes none up.
    if row ∈ system.history.rows then system.serve (.reconcileKey uuid now row.update)
    else none
  | .crash => ({ system with loads := [], pulls := [] }).serve .crash
  | .seed employeeId locationId balance now =>
    -- A seed writes a row whatever was there.
    some (system.observed (system.hcm.seed now employeeId locationId balance).1
      (key employeeId locationId) none)
  | .adjust employeeId locationId delta now =>
    match system.hcm.adjust now employeeId locationId delta with
    | .error _ => none
    | .ok (hcm, _) => some (system.observed hcm (key employeeId locationId) none)
  | .configureFaults patch => some { system with hcm := system.hcm.configureFaults patch }

/-- The system before its first step. -/
def init : System := {}

/-- The states the system reaches by steps that are each allowed where they are taken. -/
abbrev Reachable (allowed : System → Action → Prop) : System → Prop :=
  Runs.Reachable step allowed init

/-- A run of the system, with the states it passes through. -/
abbrev Trace : List (System × Action) → System → Prop := Runs.Trace step init

/-- The steps that never switch the ghost successes on. -/
def WithoutGhosts (_ : System) : Action → Prop
  | .configureFaults patch => patch.ghostSuccess ≠ some true
  | _ => True

instance (system : System) (action : Action) : Decidable (system.WithoutGhosts action) := by
  cases action <;> unfold WithoutGhosts <;> infer_instance

/-- Taking a list of steps from the start, each as far as it is allowed. -/
def run (allowed : System → Action → Prop) [∀ system action, Decidable (allowed system action)]
    (actions : List Action) : Option System :=
  Runs.run step (fun system action => decide (allowed system action)) init actions

/-- The states a run of the system passes through are reachable. -/
theorem Trace.reached {taken : List (System × Action)} {final state : System}
    (trace : Trace taken final) (visited : Runs.Visits taken final state) :
    Reachable (fun _ _ => True) state :=
  Runs.Trace.reachable_of_visits trace (fun _ _ _ => trivial) visited

/-- What a list of allowed steps ends in is reachable. -/
theorem exists_reachable_of_run {allowed : System → Action → Prop}
    [∀ system action, Decidable (allowed system action)] {actions : List Action}
    {test : System → Bool} (executed : (run allowed actions).map test = some true) :
    ∃ system, Reachable allowed system ∧ test system = true :=
  Runs.exists_reachable_of_run (fun _ _ permitted => of_decide_eq_true permitted) executed

/-- A list of steps that can be taken is a run. -/
theorem exists_trace_of_run {allowed : System → Action → Prop}
    [∀ system action, Decidable (allowed system action)] {actions : List Action}
    (executed : (run allowed actions).isSome = true) :
    ∃ taken final, Trace taken final ∧ taken.map Prod.snd = actions := by
  -- The executed list is extended from the empty trace.
  obtain ⟨final, ended⟩ := Option.isSome_iff_exists.mp executed
  obtain ⟨taken, trace, same, _⟩ := Runs.trace_of_run .start ended
  exact ⟨taken, final, trace, same⟩

end System

end TimeOff
