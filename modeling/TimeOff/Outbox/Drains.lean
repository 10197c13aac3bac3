import TimeOff.Library.Backoff
import TimeOff.Lifecycle.Coherence

/-!
Drains that overlap, as the service runs them.

Every call of the drain keeps its own messages in memory, and all calls share one flag.
-/

namespace TimeOff

/-- How far a call of the drain has come, with the messages it keeps. -/
inductive DrainOnce where
  | uncalled
  -- The flag is taken, and the claim is not committed yet.
  | claiming (now : Time)
  -- The claimed messages that are left to be handed over.
  | looping (due : List OutboxMessage)
  | awaiting (msg : OutboxMessage) (rest : List OutboxMessage)
  -- The outcome is known, and not recorded yet.
  | attempted (msg : OutboxMessage) (attempt : Attempt) (rest : List OutboxMessage)
  | returned

namespace DrainOnce

/-- The claimed messages that a call has not handed over yet. -/
def claimed : DrainOnce → List OutboxMessage
  | .looping due => due
  | .awaiting _ rest => rest
  | .attempted _ _ rest => rest
  | _ => []

/-- The message a call is delivering. -/
def delivering : DrainOnce → Option OutboxMessage
  | .awaiting msg _ => some msg
  | .attempted msg _ _ => some msg
  | _ => none

/-- Whether a call is past the guard and has not returned. -/
def active : DrainOnce → Bool
  | .uncalled => false
  | .returned => false
  | _ => true

/-- What the processor keeps in memory while a call has come this far. -/
def memory : DrainOnce → OutboxProcessor
  | .looping due => { draining := !due.isEmpty, due, attempted := none }
  | .awaiting msg rest => { draining := true, due := msg :: rest, attempted := none }
  | .attempted msg attempt rest =>
    { draining := true, due := rest, attempted := some (msg, attempt) }
  | _ => {}

@[simp] theorem held_memory (drain : DrainOnce) :
    drain.memory.held = drain.delivering.toList ++ drain.claimed := by
  cases drain <;> rfl

/-- Only an active call keeps messages. -/
theorem active_of_held {drain : DrainOnce} {msg : OutboxMessage}
    (held : msg ∈ drain.memory.held) : drain.active = true := by
  cases drain with
  | uncalled | returned => cases held
  | _ => rfl

end DrainOnce

/-- How a recorded outcome counts for its message. -/
def Attempt.outcome (now : Time) : Attempt → Backoff.Event Time
  | .acked _ => .acknowledged
  | .refused _ => .refused
  | .errored _ => .failed now

/-- Whether a step of the service is taken outside of the drains. -/
def ServiceAction.foreign : ServiceAction → Bool
  | .operate (.drain _) | .operate (.record _ _ _) | .operate (.recordFails _) => false
  | .answer _ => false
  | .crash => false
  | _ => true

/-- Whether a step cancels the request of a message that still waits. -/
def ServiceAction.cancels (msg : OutboxMessage) : ServiceAction → Bool
  | .operate (.cancel id _ _) =>
    msg.requestId = id && (msg.status = .pending || msg.status = .failed)
  | _ => false

/-- The database, the flag, and all calls of the drain. -/
structure Drains where
  store : Store := {}
  draining : Bool := false
  drain : Nat → DrainOnce := fun _ => .uncalled
  clock : Time
  -- Bookkeeping for statements: what has happened to each message.
  history : String → List (Backoff.Event Time) := fun _ => []

/-- Every step of a drain, and the steps the service takes outside of the drains. -/
inductive DrainsAction where
  | call (drain : Nat) (now : Time)
  | claim (drain : Nat)
  -- The transaction of the claim throws.
  | claimFails (drain : Nat)
  | hand (drain : Nat) (now : Time)
  | hear (drain : Nat) (result : Except HcmError ApplyDeltaAck)
  | record (drain : Nat) (entryId eventId : String) (now : Time)
  -- The transaction that records the outcome throws.
  | recordFails (drain : Nat) (message : String)
  | finish (drain : Nat)
  | serve (action : ServiceAction)

namespace Drains

/-- The drains after one call has come further. -/
def move (drains : Drains) (drain : Nat) (reached : DrainOnce) : Drains :=
  { drains with drain := Function.update drains.drain drain reached }

@[simp] theorem history_move (drains : Drains) (drain : Nat) (reached : DrainOnce) :
    (drains.move drain reached).history = drains.history := rfl

/-- A call that ends resets the flag, however it ends. -/
def leave (drains : Drains) (drain : Nat) : Drains :=
  { drains.move drain .returned with draining := false }

/-- Write down what has happened to a message. -/
def note (drains : Drains) (id : String) (event : Backoff.Event Time) : Drains :=
  { drains with history := Function.update drains.history id (drains.history id ++ [event]) }

/-- Write down the messages that a step cancels. -/
def noteCancelled (drains : Drains) (action : ServiceAction) : Drains :=
  { drains with
    history := fun id =>
      if (drains.store.outbox.find id).any fun msg => action.cancels msg then
        drains.history id ++ [.cancelled]
      else drains.history id }

/-- One step of a drain, or of the service around it. -/
def step (drains : Drains) : DrainsAction → Option Drains
  | .call drain now =>
    match drains.drain drain with
    | .uncalled =>
      if drains.clock ≤ now then
        -- An overlapping call returns at once.
        if drains.draining then some (({ drains with clock := now }).move drain .returned)
        else
          some (({ drains with clock := now, draining := true }).move drain (.claiming now))
      else none
    | _ => none
  | .claim drain =>
    match drains.drain drain with
    | .claiming now =>
      let (due, store) := drains.store.claimDue now
      some (({ drains with store }).move drain (.looping due))
    | _ => none
  | .claimFails drain =>
    match drains.drain drain with
    | .claiming _ => some (drains.leave drain)
    | _ => none
  | .hand drain now =>
    match drains.drain drain with
    | .looping (msg :: rest) =>
      if drains.clock ≤ now then
        some ((({ drains with clock := now }).move drain (.awaiting msg rest)).note msg.id
          (.tried now))
      else none
    | _ => none
  | .hear drain result =>
    match drains.drain drain with
    | .awaiting msg rest => some (drains.move drain (.attempted msg (Attempt.ofResult result) rest))
    | _ => none
  | .record drain entryId eventId now =>
    match drains.drain drain with
    | .attempted msg attempt rest =>
      -- The commit and the drift event are written under new ids.
      if drains.clock ≤ now ∧ (drains.store.ledger.find entryId).isNone ∧
          (drains.store.events.find eventId).isNone then
        some ((({ drains with
          clock := now
          store := drains.store.recordAttempt msg attempt entryId eventId now }).move drain
            (.looping rest)).note msg.id (attempt.outcome now))
      else none
    | _ => none
  | .recordFails drain message =>
    match drains.drain drain with
    -- A failed success transaction is caught, and the delivery counts as errored.
    | .attempted msg (.acked _) rest =>
      some (drains.move drain (.attempted msg (.errored message) rest))
    -- Any other failed transaction escapes the delivery and ends the drain.
    | .attempted _ _ _ => some (drains.leave drain)
    | _ => none
  | .finish drain =>
    match drains.drain drain with
    | .looping [] => some (drains.leave drain)
    | _ => none
  | .serve action =>
    if action.foreign then
      (({ store := drains.store } : Service).step action).map fun service =>
        { drains.noteCancelled action with store := service.store }
    else none

/-- The drains before the first call, at any time. -/
def init (clock : Time) : Drains := { clock }

/-- The states the drains reach from a time on, whatever the system of record answers. -/
abbrev Reachable (clock : Time) : Drains → Prop :=
  Runs.Reachable step (fun _ _ => True) (init clock)

/-- A run of the drains, with the states it passes through. -/
abbrev Trace (clock : Time) : List (Drains × DrainsAction) → Drains → Prop :=
  Runs.Trace step (init clock)

/-- Everything a step can do. -/
inductive Effect (before : Drains) : DrainsAction → Drains → Prop
  | overlaps (drain : Nat) (now : Time) :
      before.drain drain = .uncalled → before.clock ≤ now → before.draining = true →
      Effect before (.call drain now) (({ before with clock := now }).move drain .returned)
  | enters (drain : Nat) (now : Time) :
      before.drain drain = .uncalled → before.clock ≤ now → before.draining = false →
      Effect before (.call drain now)
        (({ before with clock := now, draining := true }).move drain (.claiming now))
  | claims (drain : Nat) (now : Time) :
      before.drain drain = .claiming now →
      Effect before (.claim drain)
        (({ before with store := (before.store.claimDue now).2 }).move drain
          (.looping (before.store.claimDue now).1))
  | claimFails (drain : Nat) (now : Time) :
      before.drain drain = .claiming now → Effect before (.claimFails drain) (before.leave drain)
  | hands (drain : Nat) (now : Time) (msg : OutboxMessage) (rest : List OutboxMessage) :
      before.drain drain = .looping (msg :: rest) → before.clock ≤ now →
      Effect before (.hand drain now)
        ((({ before with clock := now }).move drain (.awaiting msg rest)).note msg.id (.tried now))
  | hears (drain : Nat) (result : Except HcmError ApplyDeltaAck) (msg : OutboxMessage)
      (rest : List OutboxMessage) :
      before.drain drain = .awaiting msg rest →
      Effect before (.hear drain result)
        (before.move drain (.attempted msg (Attempt.ofResult result) rest))
  | records (drain : Nat) (entryId eventId : String) (now : Time) (msg : OutboxMessage)
      (attempt : Attempt) (rest : List OutboxMessage) :
      before.drain drain = .attempted msg attempt rest → before.clock ≤ now →
      (before.store.ledger.find entryId).isNone = true →
      (before.store.events.find eventId).isNone = true →
      Effect before (.record drain entryId eventId now)
        ((({ before with
          clock := now
          store := before.store.recordAttempt msg attempt entryId eventId now }).move drain
            (.looping rest)).note msg.id (attempt.outcome now))
  | catches (drain : Nat) (message : String) (msg : OutboxMessage) (ack : ApplyDeltaAck)
      (rest : List OutboxMessage) :
      before.drain drain = .attempted msg (.acked ack) rest →
      Effect before (.recordFails drain message)
        (before.move drain (.attempted msg (.errored message) rest))
  | escapes (drain : Nat) (message : String) (msg : OutboxMessage) (attempt : Attempt)
      (rest : List OutboxMessage) :
      before.drain drain = .attempted msg attempt rest → (∀ ack, attempt ≠ .acked ack) →
      Effect before (.recordFails drain message) (before.leave drain)
  | finishes (drain : Nat) :
      before.drain drain = .looping [] → Effect before (.finish drain) (before.leave drain)
  | serves (action : ServiceAction) (service : Service) :
      action.foreign = true →
      ({ store := before.store } : Service).step action = some service →
      Effect before (.serve action) { before.noteCancelled action with store := service.store }

variable {before after : Drains} {action : DrainsAction}

/-- A step is one of these effects. -/
theorem step_effect (taken : before.step action = some after) : Effect before action after := by
  -- How far the call has come decides what its next step can be.
  cases action with
  | call drain now =>
    simp only [step] at taken
    split at taken
    · rename_i uncalled
      split at taken
      · rename_i later
        split at taken
        · rename_i overlapping
          cases taken
          exact .overlaps drain now uncalled later overlapping
        · rename_i free
          cases taken
          exact .enters drain now uncalled later (by simpa using free)
      · cases taken
    · cases taken
  | claim drain =>
    simp only [step] at taken
    split at taken
    · rename_i now claiming
      cases taken
      exact .claims drain now claiming
    · cases taken
  | claimFails drain =>
    simp only [step] at taken
    split at taken
    · rename_i now claiming
      cases taken
      exact .claimFails drain now claiming
    · cases taken
  | hand drain now =>
    simp only [step] at taken
    split at taken
    · rename_i msg rest looping
      split at taken
      · rename_i later
        cases taken
        exact .hands drain now msg rest looping later
      · cases taken
    · cases taken
  | hear drain result =>
    simp only [step] at taken
    split at taken
    · rename_i msg rest awaiting
      cases taken
      exact .hears drain result msg rest awaiting
    · cases taken
  | record drain entryId eventId now =>
    simp only [step] at taken
    split at taken
    · rename_i msg attempt rest attempted
      split at taken
      · rename_i ready
        cases taken
        exact .records drain entryId eventId now msg attempt rest attempted ready.1 ready.2.1
          ready.2.2
      · cases taken
    · cases taken
  | recordFails drain message =>
    simp only [step] at taken
    split at taken
    · rename_i msg ack rest attempted
      cases taken
      exact .catches drain message msg ack rest attempted
    · rename_i msg attempt rest notAcked attempted
      cases taken
      exact .escapes drain message msg attempt rest attempted
        fun ack acked => notAcked ack acked
    · cases taken
  | finish drain =>
    simp only [step] at taken
    split at taken
    · rename_i looping
      cases taken
      exact .finishes drain looping
    · cases taken
  | serve action =>
    simp only [step] at taken
    split at taken
    · rename_i foreign
      obtain ⟨service, moved, rfl⟩ := Option.map_eq_some_iff.mp taken
      exact .serves action service foreign moved
    · cases taken

/--
The service that the drains run.

At most one call is past the guard, and what it keeps is the memory of the processor.
-/
inductive Serves (drains : Drains) (service : Service) : Prop
  | running (drain : Nat) :
      service.store = drains.store → drains.draining = true →
      (∀ other, (drains.drain other).active = true → other = drain) →
      service.processor = (drains.drain drain).memory → Serves drains service
  | resting :
      service.store = drains.store → (∀ other, (drains.drain other).active = false) →
      service.processor = {} → Serves drains service

variable {service moved : Service} {drain : Nat} {reached : DrainOnce}

/-- When one call comes further, the others stay where they are. -/
theorem drain_update (calls : after.drain = Function.update before.drain drain reached)
    (other : Nat) :
    (other = drain ∧ after.drain other = reached) ∨
      (other ≠ drain ∧ after.drain other = before.drain other) := by
  by_cases same : other = drain
  · exact Or.inl ⟨same, by rw [calls, same, Function.update_self]⟩
  · exact Or.inr ⟨same, by rw [calls, Function.update_of_ne same]⟩

namespace Serves

theorem store_eq (serves : before.Serves service) : service.store = before.store := by
  cases serves with
  | running _ store | resting store => exact store

/-- The call that is past the guard is alone there, and keeps the memory of the processor. -/
theorem of_active (serves : before.Serves service) (drain : Nat)
    (active : (before.drain drain).active = true) :
    before.draining = true ∧ (∀ other, (before.drain other).active = true → other = drain) ∧
      service.processor = (before.drain drain).memory := by
  cases serves with
  | running sole _ draining alone memory =>
    obtain rfl := alone drain active
    exact ⟨draining, alone, memory⟩
  | resting _ idle => simp [idle drain] at active

/-- While the flag is down, no call is past the guard. -/
theorem of_free (serves : before.Serves service) (free : before.draining = false) :
    (∀ other, (before.drain other).active = false) ∧ service.processor = {} := by
  cases serves with
  | running _ _ draining => simp [free] at draining
  | resting _ idle memory => exact ⟨idle, memory⟩

/-- The only call past the guard goes on. -/
theorem advance (alone : ∀ other, (before.drain other).active = true → other = drain)
    (calls : after.drain = Function.update before.drain drain reached)
    (draining : after.draining = true) (store : moved.store = after.store)
    (memory : moved.processor = reached.memory) : after.Serves moved := by
  refine .running drain store draining (fun other active => ?_) (by simp [calls, memory])
  rcases drain_update calls other with ⟨same, _⟩ | ⟨_, still⟩
  · exact same
  · exact alone other (still ▸ active)

/-- The only call past the guard returns. -/
theorem leave (alone : ∀ other, (before.drain other).active = true → other = drain)
    (store : moved.store = before.store) (memory : moved.processor = {}) :
    (before.leave drain).Serves moved := by
  refine .resting store (fun other => ?_) memory
  have calls : (before.leave drain).drain = Function.update before.drain drain .returned := rfl
  rcases drain_update calls other with ⟨_, ended⟩ | ⟨different, still⟩
  · rw [ended]
    rfl
  · rw [still]
    exact eq_false_of_ne_true fun active => different (alone other active)

/-- A call returns at once while another one is past the guard. -/
theorem overlap {now : Time} (serves : before.Serves service)
    (uncalled : before.drain drain = .uncalled) :
    (({ before with clock := now }).move drain .returned).Serves service := by
  -- Neither before nor after is the call past the guard, so nobody's memory changes.
  have same (other : Nat) :
      ((({ before with clock := now }).move drain .returned).drain other).active =
          (before.drain other).active ∧
        ((({ before with clock := now }).move drain .returned).drain other).memory =
          (before.drain other).memory := by
    have calls : (({ before with clock := now }).move drain .returned).drain =
        Function.update before.drain drain .returned := rfl
    rcases drain_update calls other with ⟨rfl, ended⟩ | ⟨_, still⟩
    · rw [ended, uncalled]
      exact ⟨rfl, rfl⟩
    · rw [still]
      exact ⟨rfl, rfl⟩
  cases serves with
  | running sole store draining alone memory =>
    exact .running sole store draining (fun other active => alone other ((same other).1 ▸ active))
      (memory.trans (same sole).2.symm)
  | resting store idle memory =>
    exact .resting store (fun other => (same other).1.trans (idle other)) memory

end Serves

/-- A step outside of the drains neither reads nor writes the memory of the processor. -/
theorem foreign_step {serviceAction : ServiceAction} (foreign : serviceAction.foreign = true)
    (store : service.store = before.store)
    (taken : ({ store := before.store } : Service).step serviceAction = some moved) :
    service.step serviceAction = some { store := moved.store, processor := service.processor } := by
  obtain ⟨_, processor⟩ := service
  obtain rfl : _ = before.store := store
  -- The guards and the transactions of such a step ask for nothing but the database.
  apply Service.Move.taken
  cases Service.step_move taken with
  | creates _ _ _ _ _ fresh created => exact .creates _ _ _ _ _ fresh created
  | submits _ _ _ _ _ found cached fresh submitted =>
    exact .submits _ _ _ _ _ found cached fresh submitted
  | approves _ _ _ _ _ fresh approved => exact .approves _ _ _ _ _ fresh approved
  | rejects _ _ _ rejected => exact .rejects _ _ _ rejected
  | cancels _ _ _ _ _ fresh cancelled => exact .cancels _ _ _ _ _ fresh cancelled
  | loads => exact .loads ..
  | reconciles _ _ _ fresh => exact .reconciles _ _ _ fresh
  | drains | records | catches | escapes | hears | crashes => cases foreign

/-- Every step of the drains is a step of the service, or none. -/
theorem step_serves (serves : before.Serves service) (taken : before.step action = some after) :
    ∃ moved, after.Serves moved ∧
      (moved = service ∨ ∃ serviceAction, service.step serviceAction = some moved) := by
  have store := serves.store_eq
  cases step_effect taken with
  | overlaps drain now uncalled => exact ⟨service, serves.overlap uncalled, Or.inl rfl⟩
  | enters drain now uncalled later free =>
    obtain ⟨idle, memory⟩ := serves.of_free free
    have alone (other : Nat) (active : (before.drain other).active = true) : other = drain := by
      simp [idle other] at active
    exact ⟨service, .advance alone rfl rfl store memory, Or.inl rfl⟩
  | claims drain now claiming =>
    -- The flag and the claim are one step of the service.
    obtain ⟨draining, alone, memory⟩ := serves.of_active drain (by rw [claiming]; rfl)
    rw [claiming] at memory
    refine ⟨⟨_, _⟩, .advance alone rfl draining rfl rfl, Or.inr ⟨.operate (.drain now), ?_⟩⟩
    simp [Service.step, Service.operate, memory, store, DrainOnce.memory, move]
  | claimFails drain now claiming =>
    obtain ⟨_, alone, memory⟩ := serves.of_active drain (by rw [claiming]; rfl)
    rw [claiming] at memory
    exact ⟨service, .leave alone store memory, Or.inl rfl⟩
  | hands drain now msg rest looping later =>
    -- The service does not tell a claimed message from one that was handed over.
    obtain ⟨draining, alone, memory⟩ := serves.of_active drain (by rw [looping]; rfl)
    rw [looping] at memory
    exact ⟨service, .advance alone rfl draining store memory, Or.inl rfl⟩
  | hears drain result msg rest awaiting =>
    obtain ⟨draining, alone, memory⟩ := serves.of_active drain (by rw [awaiting]; rfl)
    rw [awaiting] at memory
    refine ⟨⟨_, _⟩, .advance alone rfl draining rfl rfl, Or.inr ⟨.answer result, ?_⟩⟩
    simp [Service.step, memory, store, DrainOnce.memory, move]
  | records drain entryId eventId now msg attempt rest attempted later freshEntry freshEvent =>
    obtain ⟨draining, alone, memory⟩ := serves.of_active drain (by rw [attempted]; rfl)
    rw [attempted] at memory
    refine ⟨⟨_, _⟩, .advance alone rfl draining rfl rfl,
      Or.inr ⟨.operate (.record entryId eventId now), ?_⟩⟩
    simp [Service.step, Service.operate, memory, store, DrainOnce.memory, move, note,
      OutboxProcessor.settled, freshEntry, freshEvent]
  | catches drain message msg ack rest attempted =>
    obtain ⟨draining, alone, memory⟩ := serves.of_active drain (by rw [attempted]; rfl)
    rw [attempted] at memory
    refine ⟨⟨_, _⟩, .advance alone rfl draining rfl rfl,
      Or.inr ⟨.operate (.recordFails message), ?_⟩⟩
    simp [Service.step, Service.operate, memory, store, DrainOnce.memory, move]
  | escapes drain message msg attempt rest attempted notAcked =>
    obtain ⟨_, alone, memory⟩ := serves.of_active drain (by rw [attempted]; rfl)
    rw [attempted] at memory
    refine ⟨⟨_, _⟩, .leave alone rfl rfl, Or.inr ⟨.operate (.recordFails message), ?_⟩⟩
    cases attempt with
    | acked ack => exact absurd rfl (notAcked ack)
    | _ => simp [Service.step, Service.operate, memory, store, DrainOnce.memory]
  | finishes drain looping =>
    obtain ⟨_, alone, memory⟩ := serves.of_active drain (by rw [looping]; rfl)
    rw [looping] at memory
    exact ⟨service, .leave alone store memory, Or.inl rfl⟩
  | serves serviceAction inner foreign moved =>
    refine ⟨_, ?_, Or.inr ⟨serviceAction, foreign_step foreign store moved⟩⟩
    cases serves with
    | running sole _ draining alone memory => exact .running sole rfl draining alone memory
    | resting _ idle memory => exact .resting rfl idle memory

/-- However its drains overlap, the service stays one that is reached by its own steps. -/
theorem Reachable.serves {clock : Time} {drains : Drains} (reached : Reachable clock drains) :
    ∃ service, Service.Reachable service ∧ drains.Serves service := by
  induction reached with
  | start => exact ⟨Service.init, .start, .resting rfl (fun _ => rfl) rfl⟩
  | step _ _ taken ih =>
    obtain ⟨service, reached, serves⟩ := ih
    obtain ⟨moved, servesNow, same | ⟨serviceAction, next⟩⟩ := step_serves serves taken
    · exact ⟨moved, same ▸ reached, servesNow⟩
    · exact ⟨moved, .step reached trivial next, servesNow⟩

section Exclusion

variable {first second : Nat} {msg : OutboxMessage}

/-- What a call keeps is what the processor of the service holds. -/
theorem Serves.mem_held (serves : before.Serves service)
    (held : msg ∈ (before.drain drain).memory.held) : msg ∈ service.processor.held := by
  rw [(serves.of_active drain (DrainOnce.active_of_held held)).2.2]
  exact held

/-- Two calls that keep messages are one call. -/
theorem Serves.eq_of_held {other : OutboxMessage} (serves : before.Serves service)
    (held : msg ∈ (before.drain first).memory.held)
    (heldToo : other ∈ (before.drain second).memory.held) : first = second :=
  (serves.of_active second (DrainOnce.active_of_held heldToo)).2.1 first
    (DrainOnce.active_of_held held)

end Exclusion

end Drains

end TimeOff
