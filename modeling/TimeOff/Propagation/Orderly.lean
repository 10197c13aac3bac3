import TimeOff.Propagation.Compensation

/-! Runs in which nothing is cancelled once its debit was claimed, and no balance is lowered. -/

namespace TimeOff

namespace Progress

variable {progress target : Progress} {event : Event} {debit : Undelivered}

/-- The debit of an approved request is no longer new once it was claimed. -/
theorem approved_of_next (moves : progress.next event = some (.approved debit))
    (opened : debit ≠ .pending) :
    (∃ earlier, progress = .approved earlier ∧ earlier ≠ .pending) ∨
      event = .claimed ∧ progress = .approved .pending := by
  -- A claim is what makes the debit of an approved request no longer new.
  generalize reached : Progress.approved debit = target at moves
  cases steps_of_next moves with
  | approve => cases reached; exact absurd rfl opened
  | claimApproved open_ =>
    rcases open_ with rfl | rfl
    · exact Or.inr ⟨rfl, rfl⟩
    · exact Or.inl ⟨_, rfl, by simp⟩
  | postponeApproved parked => exact Or.inl ⟨_, rfl, by simp⟩
  | absorb progress snapshot =>
    cases progress <;> simp only [absorb, reduceCtorEq, approved.injEq] at reached
    exact Or.inl ⟨_, rfl, reached ▸ opened⟩
  | _ => cases reached

/-- A request is given up by a cancellation after its approval, and a stopped debit stays so. -/
theorem abandoned_of_next (moves : progress.next event = some (.abandoned debit)) :
    (∃ earlier, progress = .approved earlier ∧ event = .cancelled ∧ debit = earlier.stop) ∨
      ∃ earlier, progress = .abandoned earlier ∧ (earlier = .dead → debit = .dead) := by
  -- Later moves of an abandoned request leave a stopped debit stopped.
  generalize reached : Progress.abandoned debit = target at moves
  cases steps_of_next moves with
  | abandon earlier => cases reached; exact Or.inl ⟨_, rfl, rfl, rfl⟩
  | claimAbandoned open_ =>
    exact Or.inr ⟨_, rfl, by rintro rfl; simp at open_⟩
  | refuseAbandoned => exact Or.inr ⟨_, rfl, by simp⟩
  | postponeAbandoned parked => exact Or.inr ⟨_, rfl, by simp⟩
  | absorb progress snapshot =>
    cases progress <;> simp only [absorb, reduceCtorEq, abandoned.injEq] at reached
    exact Or.inr ⟨_, rfl, fun dead => reached.trans dead⟩
  | _ => cases reached

end Progress

namespace System

/--
A step in which the other side plays fair.

No approved request is cancelled whose debit message was claimed, no balance is lowered by hand, and
no ghost success is switched on.
-/
def Orderly (before : System) : Action → Prop
  | .operate (.cancel id _ _) =>
    ∀ request, before.service.store.requests.find id = some request →
      request.status = .approved →
        ∀ msg ∈ before.history.claimed, msg.requestId = id → msg.type ≠ .debit
  | .seed employeeId locationId balance _ =>
    ∀ row, before.hcm.balances.find (key employeeId locationId) = some row → row.balance ≤ balance
  | .adjust _ _ delta _ => 0 ≤ delta
  | .configureFaults patch => patch.ghostSuccess ≠ some true
  | _ => True

instance (system : System) : (action : Action) → Decidable (system.Orderly action)
  | .operate (.cancel id _ _) =>
    (inferInstance : Decidable (∀ request ∈ system.service.store.requests.find id,
      request.status = .approved →
        ∀ msg ∈ system.history.claimed, msg.requestId = id → msg.type ≠ .debit))
  | .seed employeeId locationId balance _ =>
    (inferInstance : Decidable (∀ row ∈ system.hcm.balances.find (key employeeId locationId),
      row.balance ≤ balance))
  | .adjust _ _ delta _ => (inferInstance : Decidable (0 ≤ delta))
  | .configureFaults patch => (inferInstance : Decidable (patch.ghostSuccess ≠ some true))
  | .operate (.create ..) | .operate (.submit ..) | .operate (.approve ..) | .operate (.reject _)
  | .operate (.drain _) | .operate (.record ..) | .operate (.recordFails _) | .deliver ..
  | .readBalance .. | .insertBalance _ | .pull .. | .reconcilePulled .. | .ingest .. | .crash =>
    isTrue trivial

/-- An orderly step switches no ghost success on. -/
theorem Orderly.withoutGhosts {before : System} {action : Action}
    (orderly : before.Orderly action) : before.WithoutGhosts action := by
  cases action with
  | configureFaults patch => exact orderly
  | _ => trivial

/-- A debit that is no longer new was claimed, and none claimed belongs to a request given up. -/
structure Withheld (system : System) : Prop where
  handed : ∀ id debit, (system.service.store.dossier id).Shows (.approved debit) →
    debit ≠ .pending → ∃ msg ∈ system.history.claimed, msg.requestId = id ∧ msg.type = .debit
  stopped : ∀ id debit, (system.service.store.dossier id).Shows (.abandoned debit) → debit = .dead

variable {before after : System} {action : Action} {id : String}

/-- What was claimed stays on record, and a drain adds what it claims. -/
theorem claimed_of_step (taken : before.step action = some after) :
    (∀ msg ∈ before.history.claimed, msg ∈ after.history.claimed) ∧
      ∀ now, action = .operate (.drain now) →
        ∀ msg ∈ (before.service.store.claimDue now).1, msg ∈ after.history.claimed := by
  -- Only a drain adds to what was claimed.
  cases step_effect taken with
  | operates operation same _ _ _ _ history =>
    rw [history]
    refine ⟨fun msg member => List.mem_append_left _ member, fun now drains msg member => ?_⟩
    obtain rfl : operation = .drain now := Action.operate.inj (same.symm.trans drains)
    exact List.mem_append_right _ member
  | loses _ same _ _ _ _ history => simp [history, same]
  | delivers _ _ _ _ _ same _ _ _ _ _ _ _ history => simp [history, same, History.observe]
  | reads _ _ _ _ _ _ same history =>
    rcases same with ⟨same, _⟩ | ⟨same, _⟩ <;> simp [history, same, History.observe]
  | inserts _ _ same _ _ _ _ _ history => simp [history, same]
  | reconciles _ _ _ same _ _ _ _ _ history =>
    rcases same with ⟨_, same⟩ | ⟨_, same⟩ <;> simp [history, same]
  | crashes same _ _ _ _ history => simp [history, same]
  | seeds _ _ _ _ same _ _ _ _ history => simp [history, same, History.observe]
  | adjusts _ _ _ _ _ same _ _ _ _ history => simp [history, same, History.observe]
  | configures _ same _ _ _ _ history => simp [history, same]

/-- A claim is heard in a drain, by the request of a message that is due. -/
theorem claimed_debit {now : Time} {msg : OutboxMessage}
    (shown : (before.service.store.dossier id).Shows (.approved .pending))
    (claimed : msg ∈ (before.service.store.claimDue now).1) (own : msg.requestId = id) :
    msg.type = .debit := by
  -- An approved request has one message, its debit.
  obtain ⟨row, due, rfl⟩ := List.mem_map.mp claimed
  have stored := (Store.mem_dueMessages due).1
  have listed := shown.message_mem (Store.mem_messagesOf.mpr ⟨stored, own⟩)
  simp only [Progress.messages, List.mem_singleton, OutboxMessage.view, Prod.mk.injEq] at listed
  exact listed.1

/-- An orderly step withholds what is given up. -/
theorem step_withheld (withheld : before.Withheld) (coherent : before.service.Coherent)
    (taken : before.step action = some after) (orderly : before.Orderly action) :
    after.Withheld := by
  have recorded := claimed_of_step taken
  constructor
  · intro id debit reached opened
    have earlier (old : Undelivered)
        (shown : (before.service.store.dossier id).Shows (.approved old)) (late : old ≠ .pending) :
        ∃ msg ∈ after.history.claimed, msg.requestId = id ∧ msg.type = .debit := by
      obtain ⟨msg, claimed, own⟩ := withheld.handed id old shown late
      exact ⟨msg, recorded.1 msg claimed, own⟩
    rcases step_service taken with ⟨same, _⟩ | ⟨serviceAction, served, operation⟩
    · exact earlier debit (same ▸ reached) opened
    · rcases Service.shown_or_heard coherent served reached with
        kept | ⟨progress, event, shown, heard, next⟩
      · exact earlier debit kept opened
      · rcases Progress.approved_of_next next opened with ⟨old, rfl, late⟩ | ⟨rfl, rfl⟩
        · exact earlier old shown late
        · -- The message was new, so this step is the drain that claims it.
          obtain ⟨now, rfl, msg, claimed, own⟩ := (Service.event_cause heard).claimed
          exact ⟨msg, recorded.2 now ((operation _).mp rfl) msg claimed, own,
            claimed_debit shown claimed own⟩
  · intro id debit reached
    rcases step_service taken with ⟨same, _⟩ | ⟨serviceAction, served, operation⟩
    · exact withheld.stopped id debit (same ▸ reached)
    · rcases Service.shown_or_heard coherent served reached with
        kept | ⟨progress, event, shown, heard, next⟩
      · exact withheld.stopped id debit kept
      · rcases Progress.abandoned_of_next next with ⟨old, rfl, rfl, rfl⟩ | ⟨old, rfl, dead⟩
        · -- An orderly cancellation finds the message new.
          obtain ⟨uuid, now, same⟩ := (Service.event_cause heard).cancelled
          obtain ⟨request, found, approved⟩ := Option.map_eq_some_iff.mp shown.status
          obtain rfl := (operation _).mp same
          have new : old = .pending := by
            by_contra late
            obtain ⟨msg, claimed, own, type⟩ := withheld.handed id old shown late
            exact orderly request found approved msg claimed own type
          rw [new]
          rfl
        · exact dead (withheld.stopped id old shown)

/-- At the start nothing is approved. -/
theorem withheld_init : init.Withheld := by
  -- No request is known yet.
  constructor
  · intro id debit shown
    cases shown.status
  · intro id debit shown
    cases shown.status

/-- In every orderly run what is given up is withheld. -/
theorem Reachable.withheld {system : System} (reached : System.Reachable Orderly system) :
    system.Withheld :=
  Runs.Reachable.invariant withheld_init
    (fun _ _ _ earlier withheld orderly taken =>
      step_withheld withheld (System.Reachable.service earlier).coherent taken orderly) reached

/-- An orderly step is careful where what is given up is withheld. -/
theorem Withheld.careful (withheld : before.Withheld) (coherent : before.service.Coherent)
    (linked : before.Linked) (orderly : before.Orderly action) : before.Careful action := by
  cases action with
  | operate operation =>
    cases operation with
    | cancel id uuid now =>
      intro request found approved
      have named : request.id = id := Table.key_of_find found
      obtain ⟨progress, shown⟩ := coherent.shown id
      obtain ⟨debit, rfl⟩ := Progress.eq_approved
        ((shown.status_eq found).trans (congrArg some approved))
      have new : debit = .pending := by
        by_contra late
        obtain ⟨msg, claimed, own, type⟩ := withheld.handed id debit shown late
        exact orderly request found approved msg claimed own type
      rw [named]
      exact (linked.coupled id _ shown).unsent .debit (by simp [Progress.sent, new])
    | _ => trivial
  | deliver fate now =>
    have approved (msg : OutboxMessage) (rest : List OutboxMessage) (request : TimeOffRequest)
        (due : before.service.processor.due = msg :: rest) (debit : msg.type = .debit)
        (found : before.service.store.requests.find msg.requestId = some request) :
        request.status = .approved := by
      have held : msg ∈ before.service.processor.held := by simp [OutboxProcessor.held, due]
      obtain ⟨progress, shown⟩ := coherent.shown msg.requestId
      obtain ⟨delivering, again, foundAgain, status, _⟩ := coherent.of_held held shown
      cases found.symm.trans foundAgain
      rw [debit] at delivering
      rcases Progress.delivering_debit delivering with rfl | rfl
      · exact (Option.some.inj status).symm
      · -- The debit of a given up request is not being delivered.
        cases withheld.stopped msg.requestId _ shown
    cases fate with
    | requestLost => trivial
    | answered | answerLost =>
      intro msg rest request due debit found _
      exact approved msg rest request due debit found
  | _ => trivial

/-- In an orderly run no request is stranded. -/
theorem Reachable.not_stranded {system : System} (reached : System.Reachable Orderly system) :
    ∀ id, ¬system.Stranded id := by
  -- Each orderly step is careful in the state before it.
  induction reached with
  | start => exact fun id stranded => absurd stranded.2 Bool.false_ne_true
  | step earlier orderly taken free =>
    intro id stranded
    have coherent := (System.Reachable.service earlier).coherent
    have careful := (Reachable.withheld earlier).careful coherent (System.Reachable.linked earlier)
      orderly
    exact free id (stranded_of_step coherent taken careful stranded)

end System

end TimeOff
