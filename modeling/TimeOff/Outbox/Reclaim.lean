import TimeOff.Lifecycle.Coherence

/-! When a stop of the processor leaves every undelivered message to a later claim, and when not. -/

namespace TimeOff

/-- A message that every claim selects from some instant on. -/
def OutboxMessage.Reclaimable (msg : OutboxMessage) : Prop :=
  ∃ later, ∀ now, later ≤ now → msg.due now = true

/-- A message in flight is never selected. -/
theorem OutboxMessage.not_reclaimable {msg : OutboxMessage} (inflight : msg.status = .inflight) :
    ¬msg.Reclaimable := by
  -- A claim asks for a status that a message in flight does not have.
  rintro ⟨later, due⟩
  have now := due later le_rfl
  simp [OutboxMessage.due, inflight] at now

/-- A new message is selected at once, and a failed one when its backoff has elapsed. -/
theorem OutboxMessage.reclaimable {msg : OutboxMessage}
    (scheduled : msg.status = .failed → msg.nextAttemptAt.isSome = true)
    (claimable : msg.status = .pending ∨ msg.status = .failed) : msg.Reclaimable := by
  -- The backoff is a date, after which every claim selects the message.
  rcases claimable with pending | failed
  · exact ⟨0, fun now _ => by simp [OutboxMessage.due, pending]⟩
  · obtain ⟨at_, planned⟩ := Option.isSome_iff_exists.mp (scheduled failed)
    exact ⟨at_, fun now elapsed => by simp [OutboxMessage.due, failed, planned, elapsed]⟩

namespace Service

/-- While no drain is running, every message that is not over is left to a later claim. -/
def Recoverable (service : Service) : Prop :=
  service.processor.draining = false → ∀ msg ∈ service.store.outbox.rows,
    msg.status ≠ .done → msg.status ≠ .dead → msg.Reclaimable

/-- A stop of the processor that finds claimed messages whose outcome is not recorded. -/
def Strands (service : Service) : ServiceAction → Prop
  | .crash => service.processor.held ≠ []
  -- The transaction of a refusal or of a transient failure throws, and the drain ends.
  | .operate (.recordFails _) =>
    ∃ msg attempt, service.processor.attempted = some (msg, attempt) ∧
      ∀ ack, attempt ≠ .acked ack
  | _ => False

/-- A row in flight is known to the processor by its id, and a row to be retried has its date. -/
structure Tracked (known : List String) (row : OutboxMessage) : Prop where
  inflight : row.status = .inflight → row.id ∈ known
  scheduled : row.status = .failed → row.nextAttemptAt.isSome = true

/-- A row that is neither in flight nor failed needs no tracking. -/
theorem tracked_of_status {known : List String} {row : OutboxMessage}
    (grounded : row.status ≠ .inflight) (sound : row.status ≠ .failed) : Tracked known row :=
  ⟨fun status => absurd status grounded, fun status => absurd status sound⟩

/-- The processor tracks every row of the outbox. -/
def TracksAll (service : Service) : Prop :=
  ∀ row ∈ service.store.outbox.rows, Tracked (service.processor.held.map (·.id)) row

/-- A service that tracks everything and is not draining leaves nothing in flight. -/
theorem TracksAll.recoverable {service : Service} (tracks : service.TracksAll)
    (coherent : service.Coherent) : service.Recoverable := by
  -- Without a drain the memory is empty, so no row can be in flight.
  intro idle msg stored notDone notDead
  apply OutboxMessage.reclaimable (tracks msg stored).scheduled
  cases status : msg.status with
  | pending => exact Or.inl rfl
  | failed => exact Or.inr rfl
  | inflight =>
    have known := (tracks msg stored).inflight status
    simp [coherent.idle idle] at known
  | done => exact absurd status notDone
  | dead => exact absurd status notDead

variable {before after : Service} {action : ServiceAction}

/-- Recording an attempt takes the row out of flight, and gives a retry its date. -/
theorem tracked_settledRow (known : List String) (attempt : Attempt) (msg row : OutboxMessage)
    (now : Time) : Tracked known (attempt.settledRow msg now row) := by
  -- Only a retry needs tracking, and it was just given its date.
  cases attempt with
  | acked ack =>
    exact tracked_of_status (by simp [Attempt.settledRow]) (by simp [Attempt.settledRow])
  | refused message =>
    exact tracked_of_status (by simp [Attempt.settledRow]) (by simp [Attempt.settledRow])
  | errored message =>
    by_cases parked : OutboxService.maxAttempts ≤ msg.attempts + 1
    · exact tracked_of_status (by simp [Attempt.settledRow, parked])
        (by simp [Attempt.settledRow, parked])
    · exact ⟨by simp [Attempt.settledRow, parked], by simp [Attempt.settledRow, parked]⟩

/-- Stopping a row keeps it tracked. -/
theorem Tracked.stopped {known : List String} {row : OutboxMessage} (tracked : Tracked known row) :
    Tracked known row.stopped := by
  -- A stopped row is dead, and any other is the row it was.
  unfold OutboxMessage.stopped
  split
  · exact tracked_of_status (by simp) (by simp)
  · exact tracked

/-- A step that strands nothing keeps track of every message. -/
theorem step_tracksAll (coherent : before.Coherent) (taken : before.step action = some after)
    (careful : ¬before.Strands action) (tracks : before.TracksAll) : after.TracksAll := by
  -- The row is either one the step wrote, or one that was tracked before.
  intro row member
  cases step_queue taken with
  | kept _ rows same =>
    rw [rows] at member
    exact same ▸ tracks row member
  | enqueued msg _ pending _ _ rows same =>
    rw [rows] at member
    rcases List.mem_append.mp member with old | new
    · exact same ▸ tracks row old
    · rw [List.mem_singleton.mp new]
      exact tracked_of_status (by simp [pending]) (by simp [pending])
  | stopped id _ _ _ rows same =>
    rw [rows] at member
    obtain ⟨source, stored, rfl⟩ := List.mem_map.mp member
    rw [same]
    split
    · exact (tracks source stored).stopped
    · exact tracks source stored
  | claimed now _ idle rows same =>
    rw [rows, Store.rows_claimDue] at member
    obtain ⟨source, stored, rfl⟩ := List.mem_map.mp member
    split
    · -- A claimed row is handed to the processor.
      rename_i named
      refine ⟨fun _ => ?_, fun failed => by simp at failed⟩
      simpa [same, OutboxProcessor.held, Store.claimDue] using named
    · -- No other row was in flight, since the processor was idle.
      refine ⟨fun inflight => ?_, (tracks source stored).scheduled⟩
      have known := (tracks source stored).inflight inflight
      simp [coherent.idle idle] at known
  | heard msg rest result _ due attempted rows same =>
    rw [rows] at member
    have held : after.processor.held = before.processor.held := by
      simp [same, OutboxProcessor.held, due, attempted]
    exact held ▸ tracks row member
  | recorded msg attempt _ _ now _ attempted rows same =>
    rw [rows] at member
    obtain ⟨source, stored, rfl⟩ := List.mem_map.mp member
    split
    · exact tracked_settledRow ..
    · rename_i other
      refine ⟨fun inflight => ?_, (tracks source stored).scheduled⟩
      have known := (tracks source stored).inflight inflight
      -- The row in flight is not the settled one, so the processor still holds its copy.
      have held : before.processor.held = msg :: after.processor.held := by
        simp [same, OutboxProcessor.held, OutboxProcessor.settled, attempted]
      simpa [held, other] using known
  | caught msg ack message _ attempted rows same =>
    rw [rows] at member
    have held : after.processor.held.map (·.id) = before.processor.held.map (·.id) := by
      simp [same, OutboxProcessor.held, attempted]
    exact held ▸ tracks row member
  | escaped msg attempt message failed attempted notAcked _ _ =>
    subst failed
    exact absurd ⟨msg, attempt, attempted, notAcked⟩ careful
  | crashed crashed rows same =>
    subst crashed
    rw [rows] at member
    -- A crash that strands nothing finds nothing in flight.
    have empty : before.processor.held = [] := by_contra careful
    refine ⟨fun inflight => ?_, (tracks row member).scheduled⟩
    have known := (tracks row member).inflight inflight
    simp [empty] at known

/-- A step that strands a message leaves a row in flight that nobody will deliver. -/
theorem Strands.not_recoverable (coherent : before.Coherent)
    (taken : before.step action = some after) (strands : before.Strands action) :
    ¬after.Recoverable := by
  -- The memory is lost with the message in it, while its row stays in flight.
  have lost : ∃ msg ∈ before.processor.held, after.store = before.store ∧ after.processor = {} := by
    cases action with
    | crash =>
      obtain ⟨msg, held⟩ := List.exists_mem_of_ne_nil _ strands
      cases taken
      exact ⟨msg, held, rfl, rfl⟩
    | operate operation =>
      cases operation with
      | recordFails message =>
        obtain ⟨msg, attempt, attempted, notAcked⟩ := strands
        refine ⟨msg, by simp [OutboxProcessor.held, attempted], ?_⟩
        cases attempt with
        | acked ack => exact absurd rfl (notAcked ack)
        | _ =>
          simp only [step, operate, attempted, Option.some.injEq] at taken
          cases taken
          exact ⟨rfl, rfl⟩
      | _ => exact absurd strands id
    | _ => exact absurd strands id
  obtain ⟨msg, held, store, processor⟩ := lost
  intro recoverable
  have row : msg.claimedRow ∈ after.store.outbox.rows := store ▸ coherent.held msg held
  exact OutboxMessage.not_reclaimable msg.claimedRow_status
    (recoverable (by rw [processor]) _ row (by simp) (by simp))

/-- The service starts with nothing to track. -/
theorem tracksAll_init : init.TracksAll := fun _ member => nomatch member

/--
A run leaves every undelivered message to a later claim, in every state it passes through, if and
only if no stop of the processor finds claimed messages whose outcome is not recorded.
-/
theorem recoverable_iff {taken : List (Service × ServiceAction)} {final : Service}
    (trace : Service.Trace taken final) :
    (∀ state, Runs.Visits taken final state → state.Recoverable) ↔
      ∀ before action, (before, action) ∈ taken → ¬before.Strands action := by
  -- A step that strands is seen in the next state; without one, everything stays tracked.
  constructor
  · intro recoverable before action member strands
    obtain ⟨after, moved, visited⟩ := Runs.Trace.step_of_mem trace member
    have reached := Service.Trace.reachable trace (Or.inr ⟨action, member⟩)
    exact strands.not_recoverable reached.coherent moved (recoverable after visited)
  · intro careful state visited
    have reached := Runs.Trace.reachable_of_visits trace careful visited
    have coherent : state.Coherent := (Service.Trace.reachable trace visited).coherent
    refine TracksAll.recoverable ?_ coherent
    -- Along the run, the processor keeps track of every message.
    refine Runs.Reachable.invariant tracksAll_init ?_ reached
    intro before action after earlier tracks permitted moved
    have coherent := Service.Reachable.coherent (earlier.mono fun _ _ _ => trivial)
    exact step_tracksAll coherent moved permitted tracks

/-- A claimed debit, and then a crash before anything is recorded of its delivery. -/
def crashRun : List ServiceAction :=
  [.insertBalance "e" "l" ⟨"e", "l", 10, 1, 0⟩,
    .operate (.create "r" ⟨"e", "l", "2025-01-06", "2025-01-08", 3, none, true⟩ none),
    .operate (.submit "r" "hold"),
    .operate (.approve "r" "debit" 0),
    .operate (.drain 0),
    .crash]

/-- The crash leaves the debit in flight, and no later claim selects it. -/
theorem crashRun_strands : ¬∀ service, Service.Reachable service → service.Recoverable := by
  -- At the end of the run no drain is active and the debit is in flight.
  intro recoverable
  have executed : (run crashRun).map (fun service => !service.processor.draining &&
      service.store.outbox.rows.any (·.status = .inflight)) = some true := by decide
  obtain ⟨service, reached, lost⟩ := exists_reachable_of_run executed
  simp only [Bool.and_eq_true, Bool.not_eq_true', List.any_eq_true, decide_eq_true_eq] at lost
  obtain ⟨idle, msg, stored, inflight⟩ := lost
  exact OutboxMessage.not_reclaimable inflight
    (recoverable service reached idle msg stored (by simp [inflight]) (by simp [inflight]))

/-- The equivalence holds of the run that crashes, whose last step is the one that strands. -/
theorem recoverable_iff_crashRun : ∃ taken final, Service.Trace taken final ∧
    taken.map Prod.snd = crashRun ∧
      ((∀ state, Runs.Visits taken final state → state.Recoverable) ↔
        ∀ before action, (before, action) ∈ taken → ¬before.Strands action) := by
  -- The run can be taken, and its trace is what the equivalence is about.
  obtain ⟨taken, final, trace, same⟩ := exists_trace_of_run (show (run crashRun).isSome = true by
    decide)
  exact ⟨taken, final, trace, same, recoverable_iff trace⟩

end Service

end TimeOff
