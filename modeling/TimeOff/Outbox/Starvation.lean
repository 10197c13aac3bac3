import TimeOff.Library.Rounds
import TimeOff.Outbox.Backlog

/-!
Whatever a client answers, no message waits for ever, for the oldest ones are served first.

In which order the messages of one second are served does not matter.
-/

namespace TimeOff

open OutboxService (maxAttempts claimLimit)

/-- The longest delay before a retry: that of the last one. -/
def OutboxService.longestBackoff : Int := 1600

/-- The failures after which a message is still tried again. -/
def OutboxMessage.lives (msg : OutboxMessage) : ℕ :=
  (maxAttempts - 1 - msg.attempts).toNat

/-- What one delivery makes of a row: it is settled, or put back with a date. -/
structure OutboxMessage.Tried (draws : Nat → Draw) (row settled : OutboxMessage) : Prop where
  id : settled.id = row.id
  createdAt : settled.createdAt = row.createdAt
  outcome : (settled.status = .done ∨ settled.status = .dead) ∨
    settled.status = .failed ∧ settled.lives < row.lives ∧
      ∃ i < claimLimit, ∃ retry, settled.nextAttemptAt = some retry ∧
        retry ≤ (draws i).recorded + OutboxService.longestBackoff

namespace Store

variable {σ : Type} {store : Store} {now : Time} {draws : Nat → Draw}

/-- The messages that wait for a delivery and were created early enough. -/
def waiting (store : Store) (early : Time → Bool) : List OutboxMessage :=
  store.backlog.filter fun msg => early msg.createdAt

/-- What a drain makes of the rows: it tries those that are due, and leaves the others. -/
structure Tries (draws : Nat → Draw) (due : List OutboxMessage)
    (settle : OutboxMessage → OutboxMessage) : Prop where
  others : ∀ row, row.id ∉ due.map (·.id) → settle row = row
  tried : ∀ row ∈ due, row.Tried draws (settle row)

variable {due : List OutboxMessage} {settle : OutboxMessage → OutboxMessage}

/-- A stored row is tried as one of the due messages, or left alone. -/
theorem Tries.cases {limit : Nat} (tries : Tries draws (store.dueMessages now limit) settle)
    {row : OutboxMessage} (stored : row ∈ store.outbox.rows) :
    row.Tried draws (settle row) ∨ settle row = row := by
  by_cases named : row.id ∈ (store.dueMessages now limit).map (·.id)
  · -- The one row under the id is the due message itself.
    obtain ⟨msg, member, same⟩ := List.mem_map.mp named
    obtain rfl := Table.eq_of_key_eq (mem_dueMessages member).1 stored same
    exact Or.inl (tries.tried msg member)
  · exact Or.inr (tries.others row named)

/-- A row keeps its id and its age, and is in flight only where it was. -/
theorem Tries.keeps {limit : Nat} (tries : Tries draws (store.dueMessages now limit) settle)
    {row : OutboxMessage} (stored : row ∈ store.outbox.rows) :
    (settle row).id = row.id ∧ (settle row).createdAt = row.createdAt ∧
      ((settle row).status = .inflight → row.status = .inflight) := by
  -- A row that is tried is settled or put back, and is never left in flight.
  rcases tries.cases stored with tried | same
  · refine ⟨tried.id, tried.createdAt, fun inflight => ?_⟩
    rcases tried.outcome with (done | dead) | ⟨failed, _⟩
    · simp [done] at inflight
    · simp [dead] at inflight
    · simp [failed] at inflight
  · rw [same]
    exact ⟨rfl, rfl, fun inflight => inflight⟩

/-- Messages that are tried wait no longer, or wait with a life less. -/
theorem Tries.served (tries : Tries draws due settle) :
    ∀ {front : List OutboxMessage}, (∀ row ∈ front, row ∈ due) →
      Rounds.Served OutboxMessage.lives front
        ((front.map settle).filter fun msg => msg.status = .pending ∨ msg.status = .failed) := by
  -- Row by row, for a settled one leaves and the others have lost a life.
  intro front
  induction front with
  | nil => exact fun _ => .nil
  | cons row rest ih =>
    intro claimed
    have later := ih fun other member => claimed other (List.mem_cons_of_mem _ member)
    have tried := tries.tried row (claimed row List.mem_cons_self)
    rw [List.map_cons, List.filter_cons]
    rcases tried.outcome with settled | ⟨failed, less, _⟩
    · have left : ¬((settle row).status = .pending ∨ (settle row).status = .failed) := by
        rcases settled with done | dead
        · simp [done]
        · simp [dead]
      rw [decide_eq_false left]
      exact .finished row later
    · rw [decide_eq_true (Or.inr failed)]
      exact .kept less later

variable {early : Time → Bool}

end Store

namespace Service

variable {service : Service}

/-- In every reachable state, no stored message was tried less than never. -/
theorem Reachable.attempted (reached : Service.Reachable service) :
    ∀ row ∈ service.store.outbox.rows, 0 ≤ row.attempts := by
  induction reached with
  | start => exact fun _ member => nomatch member
  | step earlier _ taken ih =>
    intro row member
    cases row_of_step (Service.Reachable.coherent earlier) taken member with
    | enqueued _ none_ _ => exact none_.ge
    | kept source stored _ same _ _ => exact same ▸ ih source stored
    | counted msg _ _ _ _ _ attempted _ more _ =>
      -- The copy that was tried is that of a row.
      have held := ih _ ((Service.Reachable.coherent earlier).held msg
        (by simp [OutboxProcessor.held, attempted]))
      have counted : 0 ≤ msg.attempts := held
      omega

end Service

end TimeOff
