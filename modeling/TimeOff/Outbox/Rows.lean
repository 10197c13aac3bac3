import TimeOff.Lifecycle.Coherence

/-! Where the rows of the outbox, and the messages the processor holds, come from in a step. -/

namespace TimeOff

/-- A message that a claim may still select. -/
def OutboxMessage.Claimable (msg : OutboxMessage) : Prop :=
  msg.status = .pending ∨ msg.status = .failed

theorem OutboxMessage.stopped_id (row : OutboxMessage) : row.stopped.id = row.id := by
  unfold stopped
  split <;> rfl

theorem Attempt.settledRow_id (attempt : Attempt) (msg : OutboxMessage) (now : Time)
    (row : OutboxMessage) : (attempt.settledRow msg now row).id = row.id := by
  -- Recording writes other columns than the id.
  cases attempt with
  | errored message =>
    simp only [settledRow]
    split <;> rfl
  | _ => rfl

namespace Service

variable {before after : Service} {action : ServiceAction}

/-- Where a row of the outbox comes from in a step. -/
inductive RowChange (before : Service) (action : ServiceAction) (row : OutboxMessage) : Prop
  | enqueued : row.status = .pending → row.attempts = 0 →
      before.store.outbox.find row.id = none → RowChange before action row
  -- The row keeps its attempts. It is dead because it was, was stopped, or was refused.
  | kept (source : OutboxMessage) :
      source ∈ before.store.outbox.rows → source.id = row.id → source.attempts = row.attempts →
      (row.Claimable → source.Claimable) →
      (row.status = .dead → source.status = .dead ∨ source.Claimable ∨
        ∃ msg ∈ before.processor.held, msg.claimedRow = source) →
      RowChange before action row
  -- A failed delivery is counted.
  | counted (msg : OutboxMessage) (message entryId eventId : String) (now : Time) :
      action = .operate (.record entryId eventId now) →
      before.processor.attempted = some (msg, .errored message) → row.id = msg.id →
      row.attempts = msg.attempts + 1 →
      (row.status = .failed ∧ row.attempts < OutboxService.maxAttempts ∨
        row.status = .dead ∧ OutboxService.maxAttempts ≤ row.attempts) →
      RowChange before action row

/-- A row that is left as it was. -/
theorem RowChange.same {row : OutboxMessage} (stored : row ∈ before.store.outbox.rows) :
    RowChange before action row :=
  .kept row stored rfl rfl id Or.inl

/-- The row of a recorded attempt is settled, and a failed delivery is counted. -/
theorem rowChange_settled (coherent : before.Coherent) {msg source : OutboxMessage}
    {attempt : Attempt} {entryId eventId : String} {now : Time}
    (attempted : before.processor.attempted = some (msg, attempt))
    (stored : source ∈ before.store.outbox.rows) (named : source.id = msg.id) :
    RowChange before (.operate (.record entryId eventId now))
      (attempt.settledRow msg now source) := by
  -- The settled row is the claimed one, whose copy the processor holds.
  have held : msg ∈ before.processor.held := by simp [OutboxProcessor.held, attempted]
  obtain rfl : msg.claimedRow = source :=
    Table.eq_of_key_eq (coherent.held msg held) stored named.symm
  cases attempt with
  | acked ack =>
    exact .kept _ stored rfl rfl (by simp [Attempt.settledRow, OutboxMessage.Claimable])
      (by simp [Attempt.settledRow])
  | refused message =>
    exact .kept _ stored rfl rfl (by simp [Attempt.settledRow, OutboxMessage.Claimable])
      fun _ => Or.inr (Or.inr ⟨msg, held, rfl⟩)
  | errored message =>
    -- The counter decides whether the message waits or is parked.
    by_cases parked : OutboxService.maxAttempts ≤ msg.attempts + 1
    · exact .counted msg message entryId eventId now rfl attempted
        (by simp [Attempt.settledRow, parked]) (by simp [Attempt.settledRow, parked])
        (Or.inr (by simp [Attempt.settledRow, parked]))
    · exact .counted msg message entryId eventId now rfl attempted
        (by simp [Attempt.settledRow, parked]) (by simp [Attempt.settledRow, parked])
        (Or.inl (by simp [Attempt.settledRow, parked, Int.not_le.mp parked]))

/-- Every row of the outbox has one of these origins. -/
theorem row_of_step (coherent : before.Coherent) (taken : before.step action = some after)
    {row : OutboxMessage} (member : row ∈ after.store.outbox.rows) :
    RowChange before action row := by
  -- Each kind of step says which rows it leaves, and a rewritten row has its source before.
  cases step_queue taken with
  | kept _ rows _ | heard _ _ _ _ _ _ rows _ | caught _ _ _ _ _ rows _ | escaped _ _ _ _ _ _ rows _
  | crashed _ rows _ =>
    rw [rows] at member
    exact .same member
  | enqueued msg _ pending attempts fresh rows _ =>
    rw [rows] at member
    rcases List.mem_append.mp member with old | new
    · exact .same old
    · obtain rfl := List.mem_singleton.mp new
      exact .enqueued pending attempts fresh
  | stopped id _ _ _ rows _ =>
    rw [rows] at member
    obtain ⟨source, stored, rfl⟩ := List.mem_map.mp member
    split
    · unfold OutboxMessage.stopped
      split
      · rename_i open_
        exact .kept source stored rfl rfl (by simp [OutboxMessage.Claimable])
          fun _ => Or.inr (Or.inl open_)
      · exact .same stored
    · exact .same stored
  | claimed now _ _ rows _ =>
    rw [rows, Store.rows_claimDue] at member
    obtain ⟨source, stored, rfl⟩ := List.mem_map.mp member
    split
    · exact .kept source stored rfl rfl (by simp [OutboxMessage.Claimable]) (by simp)
    · exact .same stored
  | recorded msg attempt _ _ now settling attempted rows _ =>
    subst settling
    rw [rows] at member
    obtain ⟨source, stored, rfl⟩ := List.mem_map.mp member
    split
    · rename_i named
      exact rowChange_settled coherent attempted stored named
    · exact .same stored

/-- Recording an attempt settles the row of its message. -/
theorem rows_of_record {entryId eventId : String} {now : Time}
    (taken : before.step (.operate (.record entryId eventId now)) = some after) :
    ∃ msg attempt, before.processor.attempted = some (msg, attempt) ∧
      after.store.outbox.rows = before.store.outbox.rows.map fun row =>
        if row.id = msg.id then attempt.settledRow msg now row else row := by
  -- The step is the one that commits the transaction of the attempted message.
  cases step_move taken with
  | records msg attempt _ _ _ attempted =>
    exact ⟨msg, attempt, attempted, Store.rows_recordAttempt ..⟩

/-- No row is ever deleted. -/
theorem row_kept (taken : before.step action = some after) {row : OutboxMessage}
    (stored : row ∈ before.store.outbox.rows) :
    ∃ moved ∈ after.store.outbox.rows, moved.id = row.id := by
  -- Rows are appended or rewritten under their ids, and none is taken out.
  cases step_queue taken with
  | kept _ rows _ | heard _ _ _ _ _ _ rows _ | caught _ _ _ _ _ rows _ | escaped _ _ _ _ _ _ rows _
  | crashed _ rows _ =>
    rw [rows]
    exact ⟨row, stored, rfl⟩
  | enqueued _ _ _ _ _ rows _ =>
    rw [rows]
    exact ⟨row, List.mem_append_left _ stored, rfl⟩
  | stopped _ _ _ _ rows _ =>
    rw [rows]
    refine ⟨_, List.mem_map_of_mem stored, ?_⟩
    split
    · exact OutboxMessage.stopped_id row
    · rfl
  | claimed now _ _ rows _ =>
    rw [rows, Store.rows_claimDue]
    refine ⟨_, List.mem_map_of_mem stored, ?_⟩
    split
    · rfl
    · rfl
  | recorded msg attempt _ _ now _ _ rows _ =>
    rw [rows]
    refine ⟨_, List.mem_map_of_mem stored, ?_⟩
    split
    · exact attempt.settledRow_id msg now row
    · rfl

/-- A claimed message was held before and is not settled, or is handed out by a drain. -/
theorem held_of_step (coherent : before.Coherent) (taken : before.step action = some after)
    {msg : OutboxMessage} (held : msg ∈ after.processor.held) :
    (msg ∈ before.processor.held ∧ before.settles action ≠ some msg.id) ∨
      before.processor.held = [] ∧ after.processor.attempted = none ∧
        ∃ source ∈ before.store.outbox.rows, source.Claimable ∧ msg = source.claimed := by
  -- A drain starts from an empty memory, and everything else only lets messages go.
  cases step_queue taken with
  | kept nothing _ same => exact Or.inl ⟨same ▸ held, by simp [nothing]⟩
  | enqueued _ nothing _ _ _ _ same => exact Or.inl ⟨same ▸ held, by simp [nothing]⟩
  | stopped _ _ _ cancelled _ same => exact Or.inl ⟨same ▸ held, by simp [settles, cancelled]⟩
  | claimed now _ idle _ same =>
    rw [same] at held ⊢
    have handed : msg ∈ (before.store.claimDue now).1 := by
      simpa [OutboxProcessor.held] using held
    obtain ⟨source, due, rfl⟩ := List.mem_map.mp handed
    obtain ⟨stored, open_⟩ := Store.mem_dueMessages due
    exact Or.inr ⟨coherent.idle idle, rfl, source, stored, OutboxMessage.open_of_due open_, rfl⟩
  | heard head rest result answered due attempted _ same =>
    have both : after.processor.held = before.processor.held := by
      simp [same, OutboxProcessor.held, due, attempted]
    exact Or.inl ⟨both ▸ held, by simp [settles, answered]⟩
  | recorded head attempt _ _ now recorded attempted _ same =>
    -- The settled message leaves the memory, and the others are different from it.
    have both : before.processor.held = head :: after.processor.held := by
      simp [same, OutboxProcessor.held, OutboxProcessor.settled, attempted]
    have distinct := coherent.distinct
    rw [both, List.map_cons, List.nodup_cons] at distinct
    refine Or.inl ⟨by simp [both, held], ?_⟩
    simp only [settles, recorded, attempted, Option.map_some, ne_eq, Option.some.injEq]
    intro named
    exact distinct.1 (named ▸ List.mem_map_of_mem held)
  | caught head ack message failed attempted _ same =>
    have both : after.processor.held = before.processor.held := by
      simp [same, OutboxProcessor.held, attempted]
    exact Or.inl ⟨both ▸ held, by simp [settles, failed]⟩
  | escaped _ _ _ _ _ _ _ same | crashed _ _ same =>
    rw [same] at held
    cases held

end Service

end TimeOff
