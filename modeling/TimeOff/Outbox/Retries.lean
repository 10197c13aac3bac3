import TimeOff.Outbox.Rows
import TimeOff.System.Http

/-! When the attempts that are counted against a message are deliveries that were really sent. -/

namespace TimeOff

namespace HttpSystem

/-- The message that was sent and whose outcome is not recorded yet. -/
def unrecorded (system : HttpSystem) : Option String :=
  if system.awaiting then system.service.processor.due.head?.map (·.id)
  else if system.admitted then system.service.processor.attempted.map (·.1.id)
  else none

/-- What an unrecorded delivery adds to the sends of its message. -/
def extra (system : HttpSystem) (id : String) : Int :=
  if system.unrecorded = some id then 1 else 0

/-- No message was sent more often than it has attempts, but for one delivery not recorded yet. -/
structure Bounded (system : HttpSystem) : Prop where
  known : ∀ id ∈ system.sent, ∃ row ∈ system.service.store.outbox.rows, row.id = id
  open_ : ∀ row ∈ system.service.store.outbox.rows, row.Claimable →
    system.sends row.id ≤ row.attempts ∧ row.attempts < OutboxService.maxAttempts
  held : ∀ msg ∈ system.service.processor.held,
    system.sends msg.id ≤ msg.attempts + system.extra msg.id ∧
      msg.attempts < OutboxService.maxAttempts
  dead : ∀ row ∈ system.service.store.outbox.rows, row.status = .dead →
    OutboxService.maxAttempts ≤ row.attempts →
      row.attempts = OutboxService.maxAttempts ∧ system.sends row.id ≤ OutboxService.maxAttempts
  -- A reply is awaited for the first claimed message, which the circuit has let through.
  waits : system.awaiting = true → system.admitted = true ∧
    system.service.processor.attempted = none ∧ system.service.processor.due ≠ []
  -- A delivery that failed fast counts as an error.
  fast : ∀ msg attempt, system.service.processor.attempted = some (msg, attempt) →
    system.admitted = false → ∃ message, attempt = .errored message

/-- Every attempt that is counted was sent, and so is the delivery that is not recorded yet. -/
structure Counted (system : HttpSystem) : Prop where
  rows : ∀ row ∈ system.service.store.outbox.rows, row.attempts ≤ system.sends row.id
  held : ∀ msg ∈ system.service.processor.held,
    msg.attempts + system.extra msg.id ≤ system.sends msg.id

/--
The retries of every message are spent on the other side.

No attempt is counted that was not sent, and a message that died of exhausted retries was sent as
often as it may be tried.
-/
def Spent (system : HttpSystem) : Prop :=
  ∀ row ∈ system.service.store.outbox.rows, row.attempts ≤ system.sends row.id ∧
    (row.status = .dead → OutboxService.maxAttempts ≤ row.attempts →
      system.sends row.id = OutboxService.maxAttempts)

/-- Where every counted attempt was sent, the retries are spent on the other side. -/
theorem Bounded.spent {system : HttpSystem} (bounded : system.Bounded) (counted : system.Counted) :
    system.Spent := by
  -- The upper bound comes from the schedule of claims, the lower one from the admitted records.
  intro row stored
  refine ⟨counted.rows row stored, fun dead exhausted => ?_⟩
  have least := counted.rows row stored
  have most := (bounded.dead row stored dead exhausted).2
  omega

/-- No outcome is recorded of a delivery that the circuit has not let through. -/
def Admitted (before : HttpSystem) : HttpAction → Prop
  | .operate (.record _ _ _) => before.admitted = true
  | _ => True

variable {before after : HttpSystem} {action : HttpAction} {serviceAction : ServiceAction}

/-- Sending nothing changes no count. -/
theorem sends_eq (sent : after.sent = before.sent) (id : String) :
    after.sends id = before.sends id := by
  simp [sends, sent]

/-- A message that was never sent has no sends. -/
theorem Bounded.sends_eq_zero (bounded : before.Bounded) {id : String}
    (fresh : before.service.store.outbox.find id = none) : before.sends id = 0 := by
  -- Only ids of stored rows were sent.
  have absent : id ∉ before.sent := by
    intro listed
    obtain ⟨row, stored, rfl⟩ := bounded.known id listed
    rw [Table.find_of_mem stored] at fresh
    cases fresh
  simp [sends, List.count_eq_zero.mpr absent]

/-- The delivery that is not recorded yet is that of a claimed message. -/
theorem exists_held_of_unrecorded {system : HttpSystem} {id : String}
    (unrecorded : system.unrecorded = some id) :
    ∃ msg ∈ system.service.processor.held, msg.id = id := by
  -- It is the first claimed message while a reply is awaited, and the attempted one after.
  unfold HttpSystem.unrecorded at unrecorded
  split at unrecorded
  · obtain ⟨msg, head, rfl⟩ := Option.map_eq_some_iff.mp unrecorded
    exact ⟨msg, List.mem_append_right _ (List.mem_of_mem_head? head), rfl⟩
  · split at unrecorded
    · obtain ⟨⟨msg, attempt⟩, attempted, rfl⟩ := Option.map_eq_some_iff.mp unrecorded
      exact ⟨msg, by simp [OutboxProcessor.held, attempted], rfl⟩
    · cases unrecorded

theorem extra_eq (same : after.unrecorded = before.unrecorded) (id : String) :
    after.extra id = before.extra id := by
  simp only [extra, same]

/-- Nothing is unrecorded while nothing is held. -/
theorem extra_eq_zero {system : HttpSystem} (nothing : system.service.processor.held = [])
    (id : String) : system.extra id = 0 := by
  -- An attempt that is not recorded yet is about a message in memory.
  unfold extra
  rw [if_neg]
  intro unrecorded
  obtain ⟨msg, held, _⟩ := exists_held_of_unrecorded unrecorded
  simp [nothing] at held

/-- No reply is awaited while an outcome is to be recorded. -/
theorem Bounded.not_awaiting (bounded : before.Bounded) {msg : OutboxMessage} {attempt : Attempt}
    (attempted : before.service.processor.attempted = some (msg, attempt)) :
    before.awaiting = false := by
  cases waiting : before.awaiting with
  | false => rfl
  | true => simp [(bounded.waits waiting).2.1] at attempted

/-- No reply is awaited while nothing is held. -/
theorem Bounded.not_awaiting_of_empty (bounded : before.Bounded)
    (nothing : before.service.processor.held = []) : before.awaiting = false := by
  -- The service waits only for the answer about a message it holds.
  rw [OutboxProcessor.held, List.append_eq_nil_iff] at nothing
  cases waiting : before.awaiting with
  | false => rfl
  | true => exact absurd nothing.2 (bounded.waits waiting).2.2

/-- A delivery whose outcome is to be recorded was sent if the circuit let it through. -/
theorem Bounded.unrecorded_eq (bounded : before.Bounded) {msg : OutboxMessage} {attempt : Attempt}
    (attempted : before.service.processor.attempted = some (msg, attempt)) :
    before.unrecorded = if before.admitted then some msg.id else none := by
  simp [unrecorded, bounded.not_awaiting attempted, attempted]

/-- An operation of the service neither sends a message nor forgets a delivery not recorded yet. -/
theorem Bounded.extra_operates (bounded : before.Bounded) (coherent : before.service.Coherent)
    (taken : before.service.step serviceAction = some after.service)
    (own : ∀ result, serviceAction ≠ .answer result) (awaiting : after.awaiting = before.awaiting)
    (admitted : after.admitted = before.admitted) {msg : OutboxMessage}
    (held : msg ∈ after.service.processor.held) : after.extra msg.id = before.extra msg.id := by
  have same_ (same : after.service.processor = before.service.processor) :
      after.extra msg.id = before.extra msg.id :=
    extra_eq (by simp [unrecorded, same, awaiting, admitted]) msg.id
  cases Service.step_queue taken with
  | kept _ _ same => exact same_ same
  | enqueued _ _ _ _ _ _ same => exact same_ same
  | stopped _ _ _ _ _ same => exact same_ same
  | claimed now _ idle _ same =>
    -- A drain that claims finds nothing held, so no reply is awaited.
    have nothing := coherent.idle idle
    rw [extra_eq_zero nothing]
    simp [extra, unrecorded, same, awaiting, bounded.not_awaiting_of_empty nothing]
  | heard _ _ result clash => exact absurd clash (own result)
  | recorded head attempt _ _ _ recorded attempted _ same =>
    -- The messages that stay held are not the one whose outcome is recorded.
    have both : before.service.processor.held = head :: after.service.processor.held := by
      simp [same, OutboxProcessor.held, OutboxProcessor.settled, attempted]
    have distinct := coherent.distinct
    rw [both, List.map_cons, List.nodup_cons] at distinct
    have other : head.id ≠ msg.id := fun named =>
      distinct.1 (named ▸ List.mem_map_of_mem held)
    have before_ : before.extra msg.id = 0 := by
      unfold extra
      rw [bounded.unrecorded_eq attempted, if_neg]
      split <;> simp [other]
    rw [before_]
    simp [extra, unrecorded, same, awaiting, bounded.not_awaiting attempted,
      OutboxProcessor.settled]
  | caught head _ _ _ attempted _ same =>
    exact extra_eq (by simp [unrecorded, same, awaiting, admitted, attempted]) msg.id
  | escaped _ _ _ _ _ _ _ same | crashed _ _ same => simp [same, OutboxProcessor.held] at held

/-- A step of the service in which nothing is sent keeps the sends bounded. -/
theorem Bounded.served (bounded : before.Bounded) (coherent : before.service.Coherent)
    (taken : before.service.step serviceAction = some after.service)
    (sent : after.sent = before.sent)
    (extra : ∀ msg ∈ after.service.processor.held, after.extra msg.id = before.extra msg.id)
    (waits : after.awaiting = true → after.admitted = true ∧
      after.service.processor.attempted = none ∧ after.service.processor.due ≠ [])
    (fast : ∀ msg attempt, after.service.processor.attempted = some (msg, attempt) →
      after.admitted = false → ∃ message, attempt = .errored message) : after.Bounded := by
  -- Without a send the counts stay, so only the attempts of each row have to be compared.
  have most (id : String) : before.extra id ≤ 1 := by
    unfold HttpSystem.extra
    split <;> omega
  refine ⟨?_, ?_, ?_, ?_, waits, fast⟩
  · intro id listed
    obtain ⟨row, stored, named⟩ := bounded.known id (sent ▸ listed)
    obtain ⟨moved, kept, same⟩ := Service.row_kept taken stored
    exact ⟨moved, kept, same.trans named⟩
  · intro row member claimable
    rw [sends_eq sent]
    cases Service.row_of_step coherent taken member with
    | enqueued _ attempts fresh =>
      rw [bounded.sends_eq_zero fresh, attempts]
      exact ⟨le_rfl, by decide⟩
    | kept source stored named same open_ _ =>
      rw [← named, ← same]
      exact bounded.open_ source stored (open_ claimable)
    | counted msg message _ _ _ _ attempted named counted settled =>
      -- The counted delivery may be the unrecorded one, which is one send at most.
      have held := bounded.held msg (by simp [OutboxProcessor.held, attempted])
      have unsettled := most msg.id
      rcases settled with ⟨_, below⟩ | ⟨dead, _⟩
      · rw [named]
        omega
      · simp [OutboxMessage.Claimable, dead] at claimable
  · intro msg held
    rw [sends_eq sent, extra msg held]
    rcases Service.held_of_step coherent taken held with
      ⟨old, _⟩ | ⟨nothing, _, source, stored, claimable, rfl⟩
    · exact bounded.held msg old
    · obtain ⟨atMost, below⟩ := bounded.open_ source stored claimable
      rw [extra_eq_zero nothing]
      simp only [OutboxMessage.claimed] at *
      omega
  · intro row member dead exhausted
    rw [sends_eq sent]
    cases Service.row_of_step coherent taken member with
    | enqueued pending _ _ => simp [pending] at dead
    | kept source stored named same _ origin =>
      rw [← named, ← same]
      rw [← same] at exhausted
      rcases origin dead with was | claimable | ⟨msg, held, rfl⟩
      · exact bounded.dead source stored was exhausted
      · have below := (bounded.open_ source stored claimable).2
        omega
      · have below := (bounded.held msg held).2
        simp only [OutboxMessage.claimedRow] at exhausted
        omega
    | counted msg message _ _ _ _ attempted named counted settled =>
      have held := bounded.held msg (by simp [OutboxProcessor.held, attempted])
      have unsettled := most msg.id
      rw [named]
      omega

/-- An answer is heard for the first claimed message. -/
theorem answered {result : Except HcmError ApplyDeltaAck}
    (taken : before.service.step (.answer result) = some after.service) :
    ∃ msg rest, before.service.processor.due = msg :: rest ∧
      before.service.processor.attempted = none ∧
      after.service.processor = { before.service.processor with
        due := rest, attempted := some (msg, Attempt.ofResult result) } := by
  generalize after.service = moved at taken ⊢
  -- The guard of the step asks for a claimed message and for no attempted one.
  cases Service.step_move taken with
  | hears msg rest _ due attempted => exact ⟨msg, rest, due, attempted, rfl⟩

/-- While a reply is awaited, an operation of the service leaves the claimed messages alone. -/
theorem Bounded.waits_operates (bounded : before.Bounded) (coherent : before.service.Coherent)
    (taken : before.service.step serviceAction = some after.service)
    (own : ∀ result, serviceAction ≠ .answer result) (alive : serviceAction ≠ .crash)
    (waiting : before.awaiting = true) : after.service.processor = before.service.processor := by
  -- The first claimed message waits for its reply, so nothing is attempted and no drain starts.
  obtain ⟨_, free, first⟩ := bounded.waits waiting
  cases Service.step_queue taken with
  | kept _ _ same => exact same
  | enqueued _ _ _ _ _ _ same => exact same
  | stopped _ _ _ _ _ same => exact same
  | claimed _ _ idle _ _ =>
    have nothing := coherent.idle idle
    rw [OutboxProcessor.held, List.append_eq_nil_iff] at nothing
    exact absurd nothing.2 first
  | heard _ _ result clash => exact absurd clash (own result)
  | recorded _ _ _ _ _ _ attempted | caught _ _ _ _ attempted | escaped _ _ _ _ attempted =>
    simp [free] at attempted
  | crashed clash => exact absurd clash alive

/-- A delivery that was let through, answered or not, is the one not recorded yet. -/
theorem unrecorded_receives {result : Except HcmError ApplyDeltaAck}
    (taken : before.service.step (.answer result) = some after.service)
    (waiting : before.awaiting = true) (admittedBefore : before.admitted = true)
    (done : after.awaiting = false) (admitted : after.admitted = before.admitted) :
    after.unrecorded = before.unrecorded := by
  obtain ⟨msg, rest, due, _, same⟩ := answered taken
  simp [unrecorded, waiting, done, admitted, admittedBefore, due, same]

/-- A delivery that fails fast is no delivery to be recorded as sent. -/
theorem unrecorded_refuses {result : Except HcmError ApplyDeltaAck}
    (taken : before.service.step (.answer result) = some after.service)
    (idle : before.awaiting = false) (done : after.awaiting = false)
    (refused : after.admitted = false) : after.unrecorded = before.unrecorded := by
  obtain ⟨_, _, _, attempted, _⟩ := answered taken
  simp [unrecorded, idle, done, refused, attempted]

/-- Sending the first claimed message counts for that message, and makes it the one not recorded. -/
theorem sends_sent {msg : OutboxMessage} (sent : after.sent = before.sent ++ [msg.id])
    (id : String) : after.sends id = before.sends id + if msg.id = id then 1 else 0 := by
  by_cases own : msg.id = id <;> simp [sends, sent, List.count_append, own]

/-- After the first claimed message is sent, it is the one whose outcome is not recorded. -/
theorem extra_sent {msg : OutboxMessage} {rest : List OutboxMessage}
    (due : before.service.processor.due = msg :: rest)
    (attempted : before.service.processor.attempted = none) (idle : before.awaiting = false)
    (same : after.service = before.service) (waiting : after.awaiting = true) (id : String) :
    after.extra id = before.extra id + if msg.id = id then 1 else 0 := by
  have nothing : before.unrecorded = none := by simp [unrecorded, idle, attempted]
  have sent : after.unrecorded = some msg.id := by simp [unrecorded, waiting, same, due]
  simp [extra, nothing, sent]

/-- Sending the first claimed message keeps the sends bounded: the message is not recorded yet. -/
theorem Bounded.sends (bounded : before.Bounded) (coherent : before.service.Coherent)
    {msg : OutboxMessage} {rest : List OutboxMessage}
    (due : before.service.processor.due = msg :: rest)
    (attempted : before.service.processor.attempted = none) (idle : before.awaiting = false)
    (same : after.service = before.service) (waiting : after.awaiting = true)
    (sent : after.sent = before.sent ++ [msg.id]) (admitted : after.admitted = true) :
    after.Bounded := by
  have held : msg ∈ before.service.processor.held := by simp [OutboxProcessor.held, due]
  -- The message that is sent stays in flight, so no open or dead row is concerned.
  have flying := coherent.held msg held
  -- A row with another status than in flight belongs to another message.
  have other (row : OutboxMessage) (stored : row ∈ before.service.store.outbox.rows)
      (status : row.status ≠ .inflight) : msg.id ≠ row.id := by
    intro named
    obtain rfl : msg.claimedRow = row := Table.eq_of_key_eq flying stored named
    exact status rfl
  constructor
  · intro id listed
    rw [same]
    rcases List.mem_append.mp (sent ▸ listed) with old | new
    · exact bounded.known id old
    · exact ⟨msg.claimedRow, flying, (List.mem_singleton.mp new).symm⟩
  · intro row stored claimable
    rw [same] at stored
    have status : row.status ≠ .inflight := by
      rcases claimable with pending | failed <;> simp [*]
    rw [sends_sent sent, if_neg (other row stored status), Int.add_zero]
    exact bounded.open_ row stored claimable
  · intro member kept
    rw [same] at kept
    -- The new send of the message is its extra one.
    rw [sends_sent sent, extra_sent due attempted idle same waiting]
    have earlier := bounded.held member kept
    omega
  · intro row stored dead exhausted
    rw [same] at stored
    rw [sends_sent sent, if_neg (other row stored (by simp [dead])), Int.add_zero]
    exact bounded.dead row stored dead exhausted
  · intro _
    rw [same]
    exact ⟨admitted, attempted, by simp [due]⟩
  · intro _ _ answered
    rw [same, attempted] at answered
    cases answered

/-- What concerns the circuit only keeps the sends bounded. -/
theorem Bounded.of_same (bounded : before.Bounded) (same : after.service = before.service)
    (awaiting : after.awaiting = before.awaiting) (sent : after.sent = before.sent)
    (admitted : after.admitted = before.admitted) : after.Bounded := by
  -- Every bound compares the service with what was sent and admitted, and none of these moved.
  have extra (id : String) : after.extra id = before.extra id :=
    extra_eq (by simp [unrecorded, same, awaiting, admitted]) id
  constructor
  · rw [same, sent]
    exact bounded.known
  · simpa only [same, sends_eq sent] using bounded.open_
  · simpa only [same, sends_eq sent, extra] using bounded.held
  · simpa only [same, sends_eq sent] using bounded.dead
  · rw [same, awaiting, admitted]
    exact bounded.waits
  · rw [same, admitted]
    exact bounded.fast

/-- Every step keeps the sends bounded. -/
theorem step_bounded (bounded : before.Bounded) (coherent : before.service.Coherent)
    (taken : before.step action = some after) : after.Bounded := by
  -- A send is the only effect that raises a count, and it is noted as unrecorded.
  cases step_effect taken with
  | serves serviceAction operation own alive moved awaiting sent admitted =>
    refine bounded.served coherent moved sent
      (fun msg held => bounded.extra_operates coherent moved own awaiting admitted held) ?_ ?_
    · intro waiting
      rw [awaiting] at waiting
      rw [bounded.waits_operates coherent moved own alive waiting, admitted]
      exact bounded.waits waiting
    · intro msg attempt attempted refused
      rcases Service.attempted_of_step moved attempted with
        same | ⟨result, _, clash, _⟩ | ⟨_, message, _, errored⟩
      · exact bounded.fast msg attempt same (admitted ▸ refused)
      · exact absurd clash (own result)
      · exact ⟨message, errored⟩
  | sends msg rest now _ _ due attempted idle same waiting sent admitted =>
    exact bounded.sends coherent due attempted idle same waiting sent admitted
  | refuses now _ _ moved idle done sent refused =>
    obtain ⟨_, _, _, _, same⟩ := answered moved
    refine bounded.served coherent moved sent
      (fun msg _ => extra_eq (unrecorded_refuses moved idle done refused) msg.id) ?_ ?_
    · intro waiting
      simp [done] at waiting
    · intro msg attempt attempted _
      rw [same] at attempted
      cases attempted
      exact ⟨_, rfl⟩
  | receives result _ waiting moved done sent admitted =>
    have through := (bounded.waits waiting).1
    refine bounded.served coherent moved sent
      (fun msg _ => extra_eq (unrecorded_receives moved waiting through done admitted) msg.id) ?_ ?_
    · intro still
      simp [done] at still
    · intro _ _ _ refused
      simp [admitted, through] at refused
  | reads _ same awaiting sent admitted => exact bounded.of_same same awaiting sent admitted
  | crashes _ moved done sent admitted =>
    -- Nothing is held after a crash.
    have lost : after.service.processor = {} := by rw [← Option.some.inj moved]
    refine bounded.served coherent moved sent (fun msg held => ?_) ?_ ?_
    · simp [lost, OutboxProcessor.held] at held
    · intro waiting
      simp [done] at waiting
    · intro msg attempt attempted
      simp [lost] at attempted

/-- A step of the service that records only what was sent keeps the attempts counted. -/
theorem Counted.served (counted : before.Counted) (bounded : before.Bounded)
    (coherent : before.service.Coherent)
    (taken : before.service.step serviceAction = some after.service)
    (sent : after.sent = before.sent)
    (extra : ∀ msg ∈ after.service.processor.held, after.extra msg.id = before.extra msg.id)
    (through : ∀ entryId eventId now, serviceAction = .operate (.record entryId eventId now) →
      before.admitted = true) : after.Counted := by
  -- An attempt is added only where the unrecorded delivery stands for it.
  constructor
  · intro row member
    rw [sends_eq sent]
    cases Service.row_of_step coherent taken member with
    | enqueued _ attempts _ =>
      rw [attempts]
      exact Int.natCast_nonneg _
    | kept source stored named same _ _ =>
      rw [← named, ← same]
      exact counted.rows source stored
    | counted msg message entryId eventId now same attempted named more _ =>
      -- The delivery whose failure is counted was sent, since the circuit let it through.
      have held := counted.held msg (by simp [OutboxProcessor.held, attempted])
      have own : before.extra msg.id = 1 := by
        unfold HttpSystem.extra
        rw [bounded.unrecorded_eq attempted, through entryId eventId now same]
        simp
      rw [named]
      omega
  · intro msg held
    rw [sends_eq sent, extra msg held]
    rcases Service.held_of_step coherent taken held with
      ⟨old, _⟩ | ⟨nothing, _, source, stored, _, rfl⟩
    · exact counted.held msg old
    · have atLeast := counted.rows source stored
      rw [extra_eq_zero nothing]
      simp only [OutboxMessage.claimed] at *
      omega

/-- A step that records only what was sent keeps the attempts counted. -/
theorem step_counted (counted : before.Counted) (bounded : before.Bounded)
    (coherent : before.service.Coherent) (taken : before.step action = some after)
    (admits : before.Admitted action) : after.Counted := by
  -- A send raises a count at once, while the attempt is only added with its record.
  cases step_effect taken with
  | serves serviceAction operation own alive moved awaiting sent admitted =>
    refine counted.served bounded coherent moved sent
      (fun msg held => bounded.extra_operates coherent moved own awaiting admitted held) ?_
    intro entryId eventId now same
    obtain rfl := (operation _).mp same
    exact admits
  | sends msg rest now _ _ due attempted idle same waiting sent admitted =>
    constructor
    · intro row stored
      rw [same] at stored
      rw [sends_sent sent]
      have earlier := counted.rows row stored
      split <;> omega
    · intro member held
      rw [same] at held
      rw [sends_sent sent, extra_sent due attempted idle same waiting]
      have earlier := counted.held member held
      omega
  | refuses now _ _ moved idle done sent refused =>
    exact counted.served bounded coherent moved sent
      (fun msg _ => extra_eq (unrecorded_refuses moved idle done refused) msg.id) (by simp)
  | receives result _ waiting moved done sent admitted =>
    have through := (bounded.waits waiting).1
    exact counted.served bounded coherent moved sent
      (fun msg _ => extra_eq (unrecorded_receives moved waiting through done admitted) msg.id)
      (by simp)
  | reads _ same awaiting sent admitted =>
    have extra (id : String) : after.extra id = before.extra id :=
      extra_eq (by simp [unrecorded, same, awaiting, admitted]) id
    constructor
    · simpa only [same, sends_eq sent] using counted.rows
    · simpa only [same, sends_eq sent, extra] using counted.held
  | crashes _ moved done sent admitted =>
    have lost : after.service.processor = {} := by rw [← Option.some.inj moved]
    refine counted.served bounded coherent moved sent (fun msg held => ?_) (by simp)
    simp [lost, OutboxProcessor.held] at held

/-- A delivery that failed fast and is recorded counts as an attempt that was never sent. -/
theorem not_spent_of_record (bounded : before.Bounded) (coherent : before.service.Coherent)
    {entryId eventId : String} {now : Time}
    (taken : before.step (.operate (.record entryId eventId now)) = some after)
    (refused : before.admitted = false) : ¬after.Spent := by
  -- The circuit was open, so the delivery counts as an error that was never sent.
  obtain ⟨service, moved, rfl⟩ := serve_some taken
  obtain ⟨msg, attempt, attempted, rows⟩ := Service.rows_of_record moved
  have held : msg ∈ before.service.processor.held := by simp [OutboxProcessor.held, attempted]
  obtain ⟨message, rfl⟩ := bounded.fast msg attempt attempted refused
  intro spent
  -- The row of the message gets one attempt more, and no send.
  have stored : (Attempt.errored message).settledRow msg now msg.claimedRow ∈
      service.store.outbox.rows := by
    rw [rows]
    exact List.mem_map.mpr ⟨msg.claimedRow, coherent.held msg held, if_pos rfl⟩
  have more : ((Attempt.errored message).settledRow msg now msg.claimedRow).attempts =
      msg.attempts + 1 := by
    simp only [Attempt.settledRow]
    split <;> rfl
  have unsent : before.extra msg.id = 0 := by
    unfold extra
    rw [bounded.unrecorded_eq attempted, refused]
    rfl
  have least : msg.attempts + 1 ≤ before.sends msg.id := by
    have attempts := (spent _ stored).1
    rwa [Attempt.settledRow_id, more] at attempts
  have most := (bounded.held msg held).1
  omega

/-- Before the first step nothing was sent. -/
theorem bounded_init (failureThreshold cooldownMs : Option Int) :
    (init failureThreshold cooldownMs).Bounded := by
  -- The tables, the memory and the list of sends are empty.
  refine ⟨?_, ?_, ?_, ?_, ?_, ?_⟩
  · intro id listed
    cases listed
  · intro row stored
    cases stored
  · intro msg held
    cases held
  · intro row stored
    cases stored
  · intro waiting
    cases waiting
  · intro msg attempt attempted
    cases attempted

/--
Along a run the retries are spent on the other side, in every state the run passes through, if and
only if no outcome is recorded of a delivery that found the circuit open.
-/
theorem spent_iff_admitted {failureThreshold cooldownMs : Option Int}
    {taken : List (HttpSystem × HttpAction)} {final : HttpSystem}
    (trace : HttpSystem.Trace failureThreshold cooldownMs taken final) :
    (∀ state, Runs.Visits taken final state → state.Spent) ↔
      ∀ before action, (before, action) ∈ taken → before.Admitted action := by
  -- A record of a refused delivery is seen in the next state, and without one all is counted.
  have bounded {state : HttpSystem} (visited : Runs.Visits taken final state) : state.Bounded := by
    have reached : Runs.Reachable step (fun before _ => before.service.Coherent)
        (init failureThreshold cooldownMs) state :=
      Runs.Trace.reachable_of_visits trace
        (fun _ action member =>
          (HttpSystem.Trace.service trace (Or.inr ⟨action, member⟩)).coherent) visited
    exact Runs.Reachable.invariant (bounded_init failureThreshold cooldownMs)
      (fun _ _ _ _ bounded coherent moved => step_bounded bounded coherent moved) reached
  constructor
  · intro spent before action member
    obtain ⟨after, moved, visited⟩ := Runs.Trace.step_of_mem trace member
    have here : Runs.Visits taken final before := Or.inr ⟨action, member⟩
    have coherent := (HttpSystem.Trace.service trace here).coherent
    -- Only the record of an outcome can be refused.
    cases action with
    | operate operation =>
      cases operation with
      | record entryId eventId now =>
        cases admitted : before.admitted with
        | true => exact admitted
        | false =>
          exact absurd (spent after visited)
            (not_spent_of_record (bounded here) coherent moved admitted)
      | _ => trivial
    | _ => trivial
  · intro admits state visited
    apply (bounded visited).spent
    have reached : Runs.Reachable step
        (fun before action => before.Admitted action ∧ before.Bounded ∧ before.service.Coherent)
        (init failureThreshold cooldownMs) state :=
      Runs.Trace.reachable_of_visits trace
        (fun before action member =>
          ⟨admits before action member, bounded (Or.inr ⟨action, member⟩),
            (HttpSystem.Trace.service trace (Or.inr ⟨action, member⟩)).coherent⟩) visited
    refine Runs.Reachable.invariant ?_ ?_ reached
    · exact ⟨fun _ stored => (nomatch stored), fun _ held => (nomatch held)⟩
    · intro before action after _ counted permitted moved
      exact step_counted counted permitted.2.1 permitted.2.2 moved permitted.1

/-- A delivery to a system of record that is down. -/
def failedDelivery (now : Time) : List HttpAction :=
  [.deliver now, .receive (.unreachable "connection refused") now,
    .operate (.record "commit" "drift" now)]

/-- A delivery while the circuit is open. -/
def fastDelivery (now : Time) : List HttpAction :=
  [.deliver now, .operate (.record "commit" "drift" now)]

/-- The debits of two approved requests. -/
def twoDebits : List HttpAction :=
  [.insertBalance "e" "l" ⟨"e", "l", 30, 1, 0⟩,
    .operate (.create "r" ⟨"e", "l", "2025-01-06", "2025-01-08", 3, none, true⟩ none),
    .operate (.submit "r" "first"), .operate (.approve "r" "debit-r" 0),
    .operate (.create "s" ⟨"e", "l", "2025-02-03", "2025-02-04", 2, none, true⟩ none),
    .operate (.submit "s" "second"), .operate (.approve "s" "debit-s" 1)]

/-- Five drains within five seconds, while the system of record is down for the first three. -/
def outageRun : List HttpAction :=
  twoDebits ++
    .operate (.drain 10) :: failedDelivery 10 ++ failedDelivery 20 ++
    .operate (.drain 1000) :: failedDelivery 1000 ++ failedDelivery 1010 ++
    -- The fifth failure in a row opens the circuit.
    .operate (.drain 2000) :: failedDelivery 2000 ++ fastDelivery 2010 ++
    .operate (.drain 3000) :: fastDelivery 3000 ++ fastDelivery 3010 ++
    .operate (.drain 5000) :: fastDelivery 5000 ++ fastDelivery 5010

/-- At the end of that run the second debit is dead, and was sent twice. -/
theorem outageRun_wastes : ¬∀ system, HttpSystem.Reachable system → system.Spent := by
  -- The run is executed, and the row of the second debit is looked up at its end.
  intro spent
  have executed : (run outageRun).map (fun system =>
      system.service.store.outbox.rows.any fun row =>
        row.id = "debit-s" ∧ row.status = .dead ∧ OutboxService.maxAttempts ≤ row.attempts ∧
          system.sends row.id = 2) = some true := by decide +kernel
  obtain ⟨system, reached, wasted⟩ :=
    Runs.exists_reachable_of_run (fun _ _ _ => trivial) executed
  obtain ⟨row, stored, tried⟩ := List.any_eq_true.mp wasted
  obtain ⟨_, dead, exhausted, twice⟩ := of_decide_eq_true tried
  have often := (spent system reached row stored).2 dead exhausted
  rw [twice] at often
  exact absurd often (by decide)

/-- The equivalence holds of that run, which records deliveries that failed fast. -/
theorem spent_iff_admitted_outageRun : ∃ taken final,
    HttpSystem.Trace none none taken final ∧ taken.map Prod.snd = outageRun ∧
      ((∀ state, Runs.Visits taken final state → state.Spent) ↔
        ∀ before action, (before, action) ∈ taken → before.Admitted action) := by
  -- The run can be taken, and its trace is what the equivalence is about.
  have executed : (run outageRun).isSome = true := by decide +kernel
  obtain ⟨final, ended⟩ := Option.isSome_iff_exists.mp executed
  obtain ⟨taken, trace, same, _⟩ := Runs.trace_of_run .start ended
  exact ⟨taken, final, trace, same, spent_iff_admitted trace⟩

end HttpSystem

end TimeOff
