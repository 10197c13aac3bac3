import TimeOff.Lifecycle.Queue
import TimeOff.Service.DrainOnce
import TimeOff.System.Effects

/-! A drain that runs without interruption is a run of the composed system. -/

namespace TimeOff

namespace Store

variable {store : Store} {msg : OutboxMessage} {attempt : Attempt} {entryId eventId : String}
  {now : Time}

/-- Recording an attempt writes ledger entries and events under the ids it was given. -/
theorem find_recordAttempt (msg : OutboxMessage) (attempt : Attempt) (entryId eventId : String)
    (now : Time) :
    (∀ id, id ≠ entryId → store.ledger.find id = none →
      (store.recordAttempt msg attempt entryId eventId now).ledger.find id = none) ∧
    (∀ id, id ≠ eventId → store.events.find id = none →
      (store.recordAttempt msg attempt entryId eventId now).events.find id = none) := by
  cases attempt with
  | acked ack =>
    simp only [recordAttempt, applySuccess]
    cases store.requests.find msg.requestId with
    | none => exact ⟨fun _ _ absent => absent, fun _ _ absent => absent⟩
    | some request =>
      cases msg.type with
      | credit =>
        dsimp only
        obtain ⟨ledger, events⟩ := advance_ledger (store.releaseCommit request.id) request
          .hcmCreditDone request.hcmRef
        refine ⟨fun id _ absent => ?_, fun id _ absent => ?_⟩
        · simp only [markDone, updateMessage, ledger]
          exact find_releaseActive store _ _ absent
        · simp only [markDone, updateMessage, events]
          exact absent
      | debit =>
        dsimp only
        let committed := store.commitReservation entryId request.id request.employeeId
          request.locationId msg.payload.amount (some ack.version)
        obtain ⟨ledger, events⟩ := advance_ledger committed request .hcmCommitted (some ack.hcmRef)
        -- The hold is released, and the commit is the one entry that is written.
        have entries (id : String) (other : id ≠ entryId) (absent : store.ledger.find id = none) :
            (committed.advance request .hcmCommitted (some ack.hcmRef)).ledger.find id = none := by
          rw [ledger]
          simp only [committed, commitReservation, Table.find_save, if_neg (Ne.symm other)]
          exact find_releaseActive store _ _ absent
        refine ⟨fun id other absent => ?_, fun id other absent => ?_⟩
        · split
          · exact entries id other absent
          · exact entries id other absent
        · split
          · simp only [markDone, updateMessage]
            exact events ▸ absent
          · simp only [markDone, updateMessage, recordDrift, Table.find_save,
              if_neg (Ne.symm other)]
            exact events ▸ absent
  | refused message =>
    simp only [recordAttempt, applyRejection]
    split
    · rename_i request _ _
      obtain ⟨ledger, events⟩ := advance_ledger (store.releaseReservation request.id) request
        .hcmRejected request.hcmRef
      refine ⟨fun id _ absent => ?_, fun id _ absent => ?_⟩
      · simp only [markRejected, updateMessage, ledger]
        exact find_releaseActive store _ _ absent
      · simp only [markRejected, updateMessage, events]
        exact absent
    · exact ⟨fun _ _ absent => absent, fun _ _ absent => absent⟩
  | errored message =>
    simp only [recordAttempt, markRetryOrDead]
    split
    · exact ⟨fun _ _ absent => absent, fun _ _ absent => absent⟩
    · exact ⟨fun _ _ absent => absent, fun _ _ absent => absent⟩

/-- The first draws write under new ids, no two of them under the same. -/
structure FreshDraws (store : Store) (draws : Nat → Draw) (count : Nat) : Prop where
  entry : ∀ i < count, store.ledger.find (draws i).entryId = none
  event : ∀ i < count, store.events.find (draws i).eventId = none
  entries : ∀ i < count, ∀ j < count, (draws i).entryId = (draws j).entryId → i = j
  events : ∀ i < count, ∀ j < count, (draws i).eventId = (draws j).eventId → i = j

/-- Fewer draws are fresh as well. -/
theorem FreshDraws.mono {draws : Nat → Draw} {count fewer : Nat}
    (fresh : store.FreshDraws draws count) (le : fewer ≤ count) : store.FreshDraws draws fewer :=
  ⟨fun i below => fresh.entry i (by omega), fun i below => fresh.event i (by omega),
    fun i left j right => fresh.entries i (by omega) j (by omega),
    fun i left j right => fresh.events i (by omega) j (by omega)⟩

/-- The draws before the one that is used stay fresh. -/
theorem FreshDraws.recorded {draws : Nat → Draw} {count : Nat}
    (fresh : store.FreshDraws draws (count + 1)) (msg : OutboxMessage) (attempt : Attempt)
    (now : Time) :
    (store.recordAttempt msg attempt (draws count).entryId (draws count).eventId now).FreshDraws
      draws count := by
  obtain ⟨entries, events⟩ := store.find_recordAttempt msg attempt (draws count).entryId
    (draws count).eventId now
  -- An id that is left was not the one that is used, for it would be drawn twice.
  refine ⟨fun i below => ?_, fun i below => ?_, fun i left j right => ?_, fun i left j right => ?_⟩
  · refine entries _ (fun same => ?_) (fresh.entry i (by omega))
    have twice := fresh.entries i (by omega) count (by omega) same
    omega
  · refine events _ (fun same => ?_) (fresh.event i (by omega))
    have twice := fresh.events i (by omega) count (by omega) same
    omega
  · exact fresh.entries i (by omega) j (by omega)
  · exact fresh.events i (by omega) j (by omega)

/-- Some length is longer than any of these ids. -/
theorem exists_longer (used : List String) : ∃ bound, ∀ id ∈ used, id.length < bound := by
  -- A bound for the first id and one for the others.
  induction used with
  | nil => exact ⟨0, fun _ member => nomatch member⟩
  | cons first rest ih =>
    obtain ⟨bound, below⟩ := ih
    refine ⟨max (first.length + 1) bound, fun id member => ?_⟩
    rcases List.mem_cons.mp member with rfl | member
    · omega
    · have shorter := below id member
      omega

/-- There are always draws that write under new ids. -/
theorem exists_freshDraws (store : Store) (count : Nat) :
    ∃ draws, store.FreshDraws draws count := by
  -- Ids that are longer than all that are in use are new.
  obtain ⟨bound, below⟩ := exists_longer
    (store.ledger.rows.map (·.id) ++ store.events.rows.map (·.id))
  let id (i : Nat) : String := String.ofList (List.replicate (bound + i) '-')
  have length (i : Nat) : (id i).length = bound + i := by simp [id]
  have apart (i j : Nat) (same : id i = id j) : i = j := by
    have lengths := congrArg String.length same
    rw [length, length] at lengths
    omega
  have unused (i : Nat) (used : String)
      (member : used ∈ store.ledger.rows.map (·.id) ++ store.events.rows.map (·.id)) :
      used ≠ id i := by
    rintro rfl
    have short := below _ member
    rw [length] at short
    omega
  refine ⟨fun i => ⟨0, 0, id i, id i⟩, fun i _ => ?_, fun i _ => ?_, fun i _ j _ => apart i j,
    fun i _ j _ => apart i j⟩
  · exact Table.find_eq_none.mpr fun row stored =>
      unused i row.id (List.mem_append_left _ (List.mem_map_of_mem stored))
  · exact Table.find_eq_none.mpr fun row stored =>
      unused i row.id (List.mem_append_right _ (List.mem_map_of_mem stored))

end Store

namespace System

/-- The steps of the loop of a drain over the messages it has claimed. -/
def deliveries (draws : Nat → Draw) : List OutboxMessage → List Action
  | [] => []
  | _ :: rest =>
    let draw := draws rest.length
    .deliver .answered draw.called ::
      .operate (.record draw.entryId draw.eventId draw.recorded) :: deliveries draws rest

/-- The steps of a drain: its claim and its deliveries, or none while another one runs. -/
def draining (system : System) (now : Time) (draws : Nat → Draw) : List Action :=
  if system.service.processor.draining then []
  else .operate (.drain now) :: deliveries draws (system.service.store.claimDue now).1

/-- The memory of the processor while a drain has these messages left. -/
def holding (due : List OutboxMessage) : OutboxProcessor :=
  { draining := !due.isEmpty, due, attempted := none }

/-- Delivering a claimed message over the in-process client takes two steps of the system. -/
theorem step_deliver {system : System} {msg : OutboxMessage} {rest : List OutboxMessage}
    (draw : Draw) (held : system.service.processor = holding (msg :: rest))
    (entry : system.service.store.ledger.find draw.entryId = none)
    (event : system.service.store.events.find draw.eventId = none) :
    ∃ called final, system.step (.deliver .answered draw.called) = some called ∧
      called.service.store = system.service.store ∧
      called.service.processor.attempted =
        some (msg, .ofResult (system.hcm.applyDelta draw.called msg.command).2) ∧
      called.step (.operate (.record draw.entryId draw.eventId draw.recorded)) = some final ∧
      (final.service.store, final.hcm) =
        system.service.store.deliver inProcessHcmClient system.hcm draw msg ∧
      final.service.processor = holding rest := by
  let result := (system.hcm.applyDelta draw.called msg.command).2
  let observed := system.observed (system.hcm.applyDelta draw.called msg.command).1
    (key msg.command.employeeId msg.command.locationId) (some msg.command.idempotencyKey)
  let attempted : Service := { observed.service with processor :=
    { observed.service.processor with due := rest, attempted := some (msg, .ofResult result) } }
  -- The answer is heard by the processor, and then recorded by a transaction of its own.
  have hears : observed.service.Move (.answer result) attempted :=
    .hears msg rest result (by simp [observed, System.observed, held, holding])
      (by simp [observed, System.observed, held, holding])
  have heard := hears.taken
  have records : attempted.Move (.operate (.record draw.entryId draw.eventId draw.recorded)) _ :=
    .records msg (.ofResult result) draw.entryId draw.eventId draw.recorded rfl entry event
  have recorded := records.taken
  have called : system.step (.deliver .answered draw.called) =
      some { observed with service := attempted } := by
    simp only [step, System.deliver, held, holding, reduceCtorEq, if_false]
    exact congrArg (Option.map fun service => { observed with service }) heard
  refine ⟨_, _, called, rfl, rfl, congrArg (Option.map _) (congrArg (Option.map _) recorded), rfl,
    ?_⟩
  simp only [attempted, holding, OutboxProcessor.settled]

/-- The deliveries of a drain one after the other, each in its two steps. -/
inductive Delivers (draws : Nat → Draw) : List OutboxMessage → System → System → Prop
  | ended {system : System} : system.service.processor = {} → Delivers draws [] system system
  | next {msg : OutboxMessage} {rest : List OutboxMessage}
      {before called recorded after : System} :
      before.service.processor = holding (msg :: rest) →
      before.step (.deliver .answered (draws rest.length).called) = some called →
      called.service.store = before.service.store →
      called.service.processor.attempted =
        some (msg, .ofResult (before.hcm.applyDelta (draws rest.length).called msg.command).2) →
      called.step (.operate (.record (draws rest.length).entryId (draws rest.length).eventId
        (draws rest.length).recorded)) = some recorded →
      (recorded.service.store, recorded.hcm) = before.service.store.deliver inProcessHcmClient
        before.hcm (draws rest.length) msg →
      Delivers draws rest recorded after → Delivers draws (msg :: rest) before after

/-- Whatever a drain has claimed, it delivers, and the draws it leaves are fresh. -/
theorem exists_delivers (draws : Nat → Draw) (base : Nat) (due : List OutboxMessage) :
    ∀ {system : System}, system.service.processor = holding due →
      system.service.store.FreshDraws draws (base + due.length) →
      ∃ final, Delivers (fun i => draws (base + i)) due system final ∧
        final.service.store.FreshDraws draws base := by
  -- Each message is delivered in two steps, after which the loop has one message less.
  induction due with
  | nil =>
    intro system held fresh
    exact ⟨system, .ended held, fresh⟩
  | cons msg rest ih =>
    intro system held fresh
    have last : base + rest.length < base + (msg :: rest).length := by simp
    obtain ⟨called, recorded, first, same, attempted, second, both, left⟩ := step_deliver
      (draws (base + rest.length)) held (fresh.entry _ last) (fresh.event _ last)
    have kept : recorded.service.store.FreshDraws draws (base + rest.length) := by
      rw [(Prod.mk.inj both).1]
      exact Store.FreshDraws.recorded (fresh.mono last) msg _ _
    obtain ⟨final, delivers, unused⟩ := ih left kept
    exact ⟨final, .next held first same attempted second both delivers, unused⟩

variable {draws : Nat → Draw} {due : List OutboxMessage} {before after : System}

/-- The deliveries are a run of the system, which ends with an empty memory. -/
theorem Delivers.run (delivers : Delivers draws due before after) :
    Runs.run step (fun _ _ => true) before (deliveries draws due) = some after ∧
      after.service.processor = {} := by
  -- The two steps of the first message, and then those of the others.
  induction delivers with
  | ended empty => exact ⟨rfl, empty⟩
  | next _ first _ _ second _ _ ih =>
    refine ⟨?_, ih.2⟩
    simp only [deliveries, Runs.run, first, second, if_true, Option.bind_some]
    exact ih.1

/-- The deliveries do what the loop of the drain does. -/
theorem Delivers.deliverEach (delivers : Delivers draws due before after) :
    Store.deliverEach inProcessHcmClient draws due before.service.store before.hcm =
      (due.length, after.service.store, after.hcm) := by
  induction delivers with
  | ended => rfl
  | next _ _ _ _ _ both _ ih => simp only [Store.deliverEach, ← both, ih, List.length_cons]

/-- The steps of the deliveries are two for each message. -/
theorem length_deliveries (draws : Nat → Draw) (due : List OutboxMessage) :
    (deliveries draws due).length = 2 * due.length := by
  induction due with
  | nil => rfl
  | cons msg rest ih =>
    simp only [deliveries, List.length_cons, ih]
    omega

/-- A claim is a step of the system, after which the processor holds what was claimed. -/
theorem step_claim {system : System} (now : Time)
    (idle : system.service.processor.draining = false) :
    ∃ claimed, system.step (.operate (.drain now)) = some claimed ∧
      claimed.service.store = (system.service.store.claimDue now).2 ∧
      claimed.hcm = system.hcm ∧
      claimed.service.processor = holding (system.service.store.claimDue now).1 := by
  have drains : system.service.Move (.operate (.drain now)) _ := .drains now idle
  have taken := drains.taken
  exact ⟨_, congrArg (Option.map _) (congrArg (Option.map _) taken), rfl, rfl, rfl⟩

/--
From every reachable state a drain that nothing interrupts is a run of the system, in which each
claimed message is delivered and recorded in turn, and it returns how many there were.

The system is ready for the next drain afterwards, or still busy with the one it was in.
-/
theorem drainOnce_refines {system : System} (reached : System.Reachable (fun _ _ => True) system)
    (now : Time) {draws : Nat → Draw}
    (fresh : system.service.store.FreshDraws draws
      (system.service.store.claimDue now).1.length) :
    ∃ processed final, Runs.run step (fun _ _ => true) system (system.draining now draws) =
        some final ∧
      system.service.store.drainOnce inProcessHcmClient system.hcm
          system.service.processor.draining now draws =
        (processed, final.service.store, final.hcm) ∧
      System.Reachable (fun _ _ => True) final ∧
      (system.draining now draws).length =
        (if system.service.processor.draining then 0 else 1) + 2 * processed ∧
      final.service.processor =
        if system.service.processor.draining then system.service.processor else {} := by
  cases busy : system.service.processor.draining with
  | true =>
    -- An overlapping call returns at once.
    exact ⟨0, system, by simp [draining, busy, Runs.run], by simp [Store.drainOnce], reached,
      by simp [draining, busy], by simp⟩
  | false =>
    obtain ⟨claimed, first, store, hcm, held⟩ := step_claim now busy
    have ledger : claimed.service.store.FreshDraws draws
        (0 + (system.service.store.claimDue now).1.length) := by
      rw [store, Nat.zero_add]
      exact ⟨fresh.entry, fresh.event, fresh.entries, fresh.events⟩
    obtain ⟨final, delivers, _⟩ := exists_delivers draws 0 _ held ledger
    simp only [Nat.zero_add] at delivers
    obtain ⟨ran, empty⟩ := delivers.run
    have delivered := delivers.deliverEach
    rw [store, hcm] at delivered
    have executed : Runs.run step (fun _ _ => true) system (system.draining now draws) =
        some final := by
      simp only [draining, busy, Bool.false_eq_true, if_false, Runs.run, if_true, first,
        Option.bind_some]
      exact ran
    refine ⟨(system.service.store.claimDue now).1.length, final, executed, ?_,
      Runs.reachable_of_run (fun _ _ _ => trivial) reached executed, ?_, empty⟩
    · simp only [Store.drainOnce, Bool.false_eq_true, if_false]
      exact delivered
    · simp only [draining, busy, Bool.false_eq_true, if_false, List.length_cons, length_deliveries]
      omega

/-- Three days are approved, and their debit waits in the outbox. -/
def approvedRun : List Action :=
  [.seed "e" "l" 10 0, .readBalance "e" "l" 0, .insertBalance 0,
    .operate (.create "r" ⟨"e", "l", "2025-01-06", "2025-01-08", 3, none, true⟩ none),
    .operate (.submit "r" "hold"), .operate (.approve "r" "debit" 0)]

/-- After that run a drain delivers the one message, in three steps of the system. -/
theorem drainOnce_refines_approved : ∃ system final draws,
    System.Reachable (fun _ _ => True) system ∧
      Runs.run step (fun _ _ => true) system (system.draining 0 draws) = some final ∧
      system.service.store.drainOnce inProcessHcmClient system.hcm
          system.service.processor.draining 0 draws =
        (1, final.service.store, final.hcm) ∧
      (system.draining 0 draws).length = 3 := by
  have executed : (run (fun _ _ => True) approvedRun).map (fun system =>
      decide ((system.service.store.claimDue 0).1.length = 1) &&
        decide (system.service.processor.draining = false)) = some true := by decide +kernel
  obtain ⟨system, reached, ended⟩ := exists_reachable_of_run executed
  simp only [Bool.and_eq_true, decide_eq_true_eq] at ended
  obtain ⟨one, idle⟩ := ended
  obtain ⟨draws, fresh⟩ := system.service.store.exists_freshDraws
    (system.service.store.claimDue 0).1.length
  obtain ⟨processed, final, ran, drained, _, steps, _⟩ := drainOnce_refines reached 0 fresh
  have count : (system.draining 0 draws).length = 3 := by
    simp [draining, idle, length_deliveries, one]
  have single : processed = 1 := by
    simp only [count, idle, Bool.false_eq_true, if_false] at steps
    omega
  subst single
  exact ⟨system, final, draws, reached, ran, drained, count⟩

end System

end TimeOff
