import TimeOff.Propagation.Coupling

/-! Which acknowledgements that changed nothing are noticed when they are recorded. -/

namespace TimeOff

namespace Store

variable (store : Store)

theorem events_advance (request : TimeOffRequest) (action : RequestAction) (ref : Option String) :
    (store.advance request action ref).events = store.events := by
  unfold advance
  split <;> rfl

/-- The drift event of a debit that was acknowledged without being applied. -/
def driftEvent (uuid : String) (request : TimeOffRequest) : ReconciliationEvent :=
  { id := uuid, type := .driftDetected
    employeeId := request.employeeId, locationId := request.locationId, delta := 0
    detail := .drift request.id
      "HCM acknowledged debit without applying it (ghost success)" }

variable {msg : OutboxMessage} {request : TimeOffRequest}

/-- The success of a debit is recorded with a drift event when nothing was applied. -/
theorem events_applySuccess_debit (found : store.requests.find msg.requestId = some request)
    (debit : msg.type = .debit) (ref : String) (version : Int) (applied : Bool)
    (entryId eventId : String) :
    (store.applySuccess msg ref version applied entryId eventId).events =
      if applied then store.events else store.events.save (driftEvent eventId request) := by
  -- The commit, the transition and the delivery mark leave the events alone.
  simp only [applySuccess, found, debit]
  cases applied with
  | true => exact events_advance _ request .hcmCommitted (some ref)
  | false =>
    simp only [Bool.false_eq_true, if_false]
    exact congrArg (fun events => Table.save events (driftEvent eventId request))
      (events_advance _ request .hcmCommitted (some ref))

/-- The success of a credit is recorded without an event, whatever was applied. -/
theorem events_applySuccess_credit (found : store.requests.find msg.requestId = some request)
    (credit : msg.type = .credit) (ref : String) (version : Int) (applied : Bool)
    (entryId eventId : String) :
    (store.applySuccess msg ref version applied entryId eventId).events = store.events := by
  simp only [applySuccess, found, credit]
  exact events_advance _ request .hcmCreditDone request.hcmRef

end Store

namespace System

/-- A step records an acknowledgement that changed nothing, for a request that is stored. -/
structure SettlesNoOp (before : System) (action : Action) (msg : OutboxMessage)
    (request : TimeOffRequest) : Prop where
  records : ∃ entryId eventId now, action = .operate (.record entryId eventId now)
  acked : ∃ ack, before.service.processor.attempted = some (msg, .acked ack)
  -- The other side remembers that the balance stayed as it was.
  idle : ∃ entry, before.hcm.applied.find msg.idempotencyKey = some entry ∧
    entry.ack.applied = false
  stored : before.service.store.requests.find msg.requestId = some request

/-- A step adds a drift event that names a request. -/
def AnnouncesDrift (before after : System) (request : TimeOffRequest) : Prop :=
  ∃ event ∈ after.service.store.events.rows, event ∉ before.service.store.events.rows ∧
    event.type = .driftDetected ∧ ∃ reason, event.detail = .drift request.id reason

variable {before after : System} {action : Action} {msg : OutboxMessage} {request : TimeOffRequest}

/-- The transaction that settles an acknowledgement without effect knows that it had none. -/
theorem SettlesNoOp.transaction (settles : before.SettlesNoOp action msg request)
    (answered : before.Answered) (taken : before.step action = some after) :
    ∃ ref version entryId eventId, before.service.store.events.find eventId = none ∧
      after.service.store =
        before.service.store.applySuccess msg ref version false entryId eventId := by
  obtain ⟨⟨entryId, eventId, now, rfl⟩, ⟨ack, attempted⟩, ⟨entry, found, idle⟩, _⟩ := settles
  -- The flag of the first answer is the one that every repetition carries.
  obtain ⟨same, foundToo, repeats⟩ := answered msg ack attempted
  obtain rfl := Option.some.inj (found.symm.trans foundToo)
  have flag : ack.applied = false := (congrArg ApplyDeltaAck.applied repeats).trans idle
  have served := (step_operate taken).1
  simp only [Service.step, Service.operate, attempted] at served
  split at served
  · rename_i fresh
    have recorded := congrArg Service.store (Option.some.inj served)
    exact ⟨ack.hcmRef, ack.version, entryId, eventId, Option.isNone_iff_eq_none.mp fresh.2,
      by rw [← recorded, ← flag]; rfl⟩
  · cases served

/-- A debit without effect is announced, and a credit without effect is not. -/
theorem SettlesNoOp.announces_iff (settles : before.SettlesNoOp action msg request)
    (answered : before.Answered) (taken : before.step action = some after) :
    AnnouncesDrift before after request ↔ msg.type = .debit := by
  obtain ⟨ref, version, entryId, eventId, fresh, same⟩ := settles.transaction answered taken
  cases type : msg.type with
  | debit =>
    simp only [iff_true]
    have events := Store.events_applySuccess_debit before.service.store settles.stored type ref
      version false entryId eventId
    rw [← same] at events
    refine ⟨Store.driftEvent eventId request, ?_, ?_, rfl, _, rfl⟩
    · rw [events]
      exact Table.mem_save.mpr (Or.inl rfl)
    · -- The event has a new id, so no event before it is the same.
      exact fun old => Table.find_eq_none.mp fresh _ old rfl
  | credit =>
    simp only [reduceCtorEq, iff_false]
    rintro ⟨event, member, new, _⟩
    have events := Store.events_applySuccess_credit before.service.store settles.stored type ref
      version false entryId eventId
    rw [← same] at events
    exact new (events ▸ member)

/--
In every state of a run the processor knows whether its delivery was applied, and every settled
acknowledgement without effect is announced if and only if each of them is that of a debit.
-/
theorem announced_iff_debits {taken : List (System × Action)} {final : System}
    (trace : System.Trace taken final) :
    (∀ state, Runs.Visits taken final state → state.Answered) ∧
    ((∀ before action after msg request, (before, action) ∈ taken →
        before.step action = some after → before.SettlesNoOp action msg request →
          AnnouncesDrift before after request) ↔
      ∀ before action msg request, (before, action) ∈ taken →
        before.SettlesNoOp action msg request → msg.type = .debit) := by
  have answered (state : System) (visited : Runs.Visits taken final state) : state.Answered :=
    (trace.reached visited).answered
  -- Step by step, an announcement is one of a debit.
  refine ⟨answered, ?_, ?_⟩
  · intro announces before action msg request member settles
    obtain ⟨after, moved, _⟩ := Runs.Trace.step_of_mem trace member
    exact (settles.announces_iff (answered before (Or.inr ⟨action, member⟩)) moved).mp
      (announces before action after msg request member moved settles)
  · intro debits before action after msg request member moved settles
    exact (settles.announces_iff (answered before (Or.inr ⟨action, member⟩)) moved).mpr
      (debits before action msg request member settles)

/-- A committed request is cancelled, and its credit is acknowledged without being applied. -/
def ghostCreditRun : List Action :=
  [.seed "e" "l" 10 0, .readBalance "e" "l" 0, .insertBalance 0,
    .operate (.create "r" ⟨"e", "l", "2025-01-06", "2025-01-08", 3, none, true⟩ none),
    .operate (.submit "r" "hold"), .operate (.approve "r" "debit" 0), .operate (.drain 0),
    .deliver .answered 0, .operate (.record "commit" "drift" 0),
    .configureFaults { ghostSuccess := some true }, .operate (.cancel "r" "credit" 1),
    .operate (.drain 1), .deliver .answered 1]

/-- The last record of that run says nothing of the days that were not given back. -/
theorem ghostCreditRun_silent :
    ¬∀ before action after msg request, System.Reachable (fun _ _ => True) before →
      before.step action = some after → before.SettlesNoOp action msg request →
        AnnouncesDrift before after request := by
  intro announces
  have executed : (run (fun _ _ => True) ghostCreditRun).map (fun system =>
      system.service.processor.attempted.any (fun delivery =>
        delivery.1.type = .credit && delivery.1.requestId = "r" &&
        delivery.2 = .acked ⟨"hcm-ref-2", 7, 2, false, false⟩ &&
        (system.hcm.applied.find delivery.1.idempotencyKey).any (·.ack.applied = false)) &&
      (system.service.store.requests.find "r").isSome &&
      (system.step (.operate (.record "unused" "drift" 1))).isSome) = some true := by
    decide +kernel
  obtain ⟨system, reached, ended⟩ := exists_reachable_of_run executed
  simp only [Bool.and_eq_true, decide_eq_true_eq, Option.any_eq_true] at ended
  obtain ⟨⟨⟨⟨msg, attempt⟩, attempted, ⟨⟨credit, own⟩, acked⟩, entry, acknowledged, idle⟩, stored⟩,
    recorded⟩ := ended
  dsimp only at credit own acked acknowledged
  obtain ⟨request, found⟩ := Option.isSome_iff_exists.mp stored
  obtain ⟨after, moved⟩ := Option.isSome_iff_exists.mp recorded
  have settles : system.SettlesNoOp (.operate (.record "unused" "drift" 1)) msg request :=
    ⟨⟨_, _, _, rfl⟩, ⟨_, acked ▸ attempted⟩, ⟨entry, acknowledged, idle⟩, own ▸ found⟩
  -- Only the settlement of a debit announces anything.
  have debit := (settles.announces_iff (System.Reachable.answered reached) moved).mp
    (announces system _ after msg request reached moved settles)
  exact absurd (credit.symm.trans debit) (by decide)

/-- The equivalence holds of that run, with the silent record at its end. -/
theorem announced_iff_debits_ghostCredit : ∃ taken final, System.Trace taken final ∧
    taken.map Prod.snd = ghostCreditRun ++ [.operate (.record "unused" "drift" 1)] ∧
    (∀ state, Runs.Visits taken final state → state.Answered) ∧
    ((∀ before action after msg request, (before, action) ∈ taken →
        before.step action = some after → before.SettlesNoOp action msg request →
          AnnouncesDrift before after request) ↔
      ∀ before action msg request, (before, action) ∈ taken →
        before.SettlesNoOp action msg request → msg.type = .debit) := by
  -- The run with the record at its end is a run of the system.
  have executed : (run (fun _ _ => True)
      (ghostCreditRun ++ [.operate (.record "unused" "drift" 1)])).isSome = true := by
    decide +kernel
  obtain ⟨taken, final, trace, same⟩ := exists_trace_of_run executed
  exact ⟨taken, final, trace, same, announced_iff_debits trace⟩

end System

end TimeOff
