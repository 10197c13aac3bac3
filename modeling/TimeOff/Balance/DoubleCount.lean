import TimeOff.Balance.Watermark
import TimeOff.System.Effects

/-! When a debit that the cached balance includes is also subtracted as a pending commit. -/

namespace TimeOff

namespace Store

/-- No commit that the cached balance includes is still active. -/
def CountsOnce (store : Store) : Prop :=
  ∀ balance ∈ store.balances.rows, ∀ entry ∈ store.ledger.rows, entry.pair = balance.pair →
    entry.phase = .commit → ∀ version, entry.hcmVersion = some version →
      version ≤ balance.lastReconciledVersion → entry.state ≠ .active

/-- The commits of a pair are counted once when the active ones are above its watermark. -/
theorem countsOnce_iff (store : Store)
    (loaded : ∀ entry ∈ store.ledger.rows, (store.balances.find entry.pair).isSome = true) :
    store.CountsOnce ↔ ∀ entry ∈ store.ledger.rows, ∀ version,
      entry.view = (.commit, .active, some version) → store.watermark entry.pair < version := by
  -- Every entry is of a cached pair, so its watermark is that of a row.
  constructor
  · intro once entry stored version seen
    obtain ⟨balance, found⟩ := Option.isSome_iff_exists.mp (loaded entry stored)
    simp only [BalanceLedgerEntry.view, Prod.mk.injEq] at seen
    obtain ⟨commit, active, stamped⟩ := seen
    have mark : store.watermark entry.pair = balance.lastReconciledVersion := by
      simp [watermark, found]
    rw [mark]
    by_contra below
    exact once balance (Table.mem_of_find found) entry stored (Table.key_of_find found).symm commit
      version stamped (Int.not_lt.mp below) active
  · intro above balance cached entry stored pair commit version stamped below active
    have mark : store.watermark entry.pair = balance.lastReconciledVersion := by
      simp [watermark, pair, Table.find_of_mem cached]
    have higher := above entry stored version (by simp [BalanceLedgerEntry.view, commit, active,
      stamped])
    omega

end Store

/-- An active commit was one before, or was written by the acknowledgement of its version. -/
theorem Progress.active_of_next {progress target : Progress} {event : Event} {version : Int}
    (moves : progress.next event = some target)
    (listed : (.commit, .active, some version) ∈ target.entries) :
    (.commit, .active, some version) ∈ progress.entries ∨
      event = .acknowledged version ∧ progress.delivering = some .debit := by
  cases Progress.steps_of_next moves with
  | commit | overtake =>
    simp only [Progress.entries, List.mem_cons, Prod.mk.injEq, reduceCtorEq, and_false, false_or,
      List.not_mem_nil, or_false, Bool.false_eq_true, if_false, true_and,
      Option.some.injEq] at listed
    exact Or.inr ⟨congrArg _ listed.symm, rfl⟩
  | compensate | postponeCredit | claimCredit | refuseCredit =>
    exact Or.inl listed
  | refund version absorbed credited =>
    cases absorbed <;> simp [Progress.entries] at listed
  | absorb progress snapshot =>
    -- A snapshot makes no commit active.
    cases progress with
    | committed stamp absorbed | cancelling stamp absorbed credit | overtaken stamp absorbed =>
      cases absorbed <;> by_cases reached : stamp ≤ snapshot <;>
        simp_all [Progress.entries, Progress.absorb]
    | _ => exact Or.inl listed
  | _ => simp [Progress.entries] at listed

namespace Service

/-- An acknowledged debit is recorded although a snapshot with its version was taken over before. -/
def RecordsLate (service : Service) : Operation → Prop
  | .record _ _ _ => ∃ msg ack, service.processor.attempted = some (msg, .acked ack) ∧
      msg.type = .debit ∧
      ack.version ≤ service.store.watermark (msg.payload.employeeId, msg.payload.locationId)
  | _ => False

variable {before after : Service} {action : ServiceAction}

/-- The entries of a request keep its pair from one step to the next. -/
theorem pair_of_step (coherent : before.Coherent) (taken : before.step action = some after)
    {id : String} {progress target : Progress} (shown : (before.store.dossier id).Shows progress)
    (reached : (after.store.dossier id).Shows target) {old entry : BalanceLedgerEntry}
    (oldMember : old ∈ before.store.entriesOf id) (member : entry ∈ after.store.entriesOf id) :
    old.pair = entry.pair := by
  obtain ⟨request, found, oldPair⟩ := pair_of_shown shown oldMember
  obtain ⟨moved, foundAfter, pair⟩ := pair_of_shown reached member
  obtain ⟨_, again, terms⟩ := step_terms coherent taken found
  cases foundAfter.symm.trans again
  -- The request keeps its terms, and its entries are those of its pair.
  rw [oldPair, pair, TimeOffRequest.pair_of_terms terms]

/-- A commit that is active after a step was so before, or has just been acknowledged. -/
theorem active_of_step (coherent : before.Coherent) (taken : before.step action = some after)
    {entry : BalanceLedgerEntry} (stored : entry ∈ after.store.ledger.rows) {version : Int}
    (seen : entry.view = (.commit, .active, some version)) :
    (∃ old ∈ before.store.ledger.rows, old.pair = entry.pair ∧
        old.view = (.commit, .active, some version)) ∨
      (∃ entryId eventId now, action = .operate (.record entryId eventId now)) ∧
        ∃ msg ack, before.processor.attempted = some (msg, .acked ack) ∧ msg.type = .debit ∧
          ack.version = version ∧
          (msg.payload.employeeId, msg.payload.locationId) = entry.pair := by
  obtain ⟨id, member⟩ := (step_coherent coherent taken).owner stored
  obtain ⟨progress, shown⟩ := coherent.shown id
  obtain ⟨target, next, reached⟩ := step_shows coherent taken id shown
  have listed := reached.entry_mem member
  rw [seen] at listed
  cases heard : before.event id action with
  | none =>
    simp only [heard, Progress.hear, Option.some.injEq] at next
    rw [← next, ← shown.entries] at listed
    obtain ⟨old, oldMember, oldSeen⟩ := List.mem_map.mp listed
    exact Or.inl ⟨old, (Store.mem_entriesOf.mp oldMember).1,
      pair_of_step coherent taken shown reached oldMember member, oldSeen⟩
  | some event =>
    simp only [heard, Progress.hear] at next
    rcases Progress.active_of_next next listed with earlier | ⟨rfl, delivering⟩
    · rw [← shown.entries] at earlier
      obtain ⟨old, oldMember, oldSeen⟩ := List.mem_map.mp earlier
      exact Or.inl ⟨old, (Store.mem_entriesOf.mp oldMember).1,
        pair_of_step coherent taken shown reached oldMember member, oldSeen⟩
    · -- The commit was written by the acknowledgement of the claimed debit.
      obtain ⟨msg, ack, entryId, eventId, now, same, attempted, rfl, versions⟩ :=
        (event_cause heard).acknowledged
      have held : msg ∈ before.processor.held := by simp [OutboxProcessor.held, attempted]
      obtain ⟨concerns, request, found, _, own⟩ := coherent.of_held held shown
      obtain ⟨_, again, terms⟩ := step_terms coherent taken found
      obtain ⟨moved, foundAfter, pair⟩ := pair_of_shown reached member
      cases foundAfter.symm.trans again
      refine Or.inr ⟨⟨entryId, eventId, now, same⟩, msg, ack, attempted, ?_, versions, ?_⟩
      · exact Option.some.inj (concerns.symm.trans delivering)
      · rw [pair, own.payload]
        exact (TimeOffRequest.pair_of_terms terms).symm

/-- What a fresh update leaves active is above its version. -/
theorem above_of_absorbs {store final : Store} {update : HcmBalanceUpdate}
    (absorbs : Store.Absorbs update store final) {entry : BalanceLedgerEntry}
    (stored : entry ∈ final.ledger.rows) (pair : entry.pair = update.pair) {version : Int}
    (seen : entry.view = (.commit, .active, some version)) :
    final.watermark entry.pair < version := by
  rw [absorbs.watermark, if_pos pair.symm]
  simp only [BalanceLedgerEntry.view, Prod.mk.injEq] at seen
  obtain ⟨commit, active, stamped⟩ := seen
  rw [absorbs.ledger] at stored
  obtain ⟨source, _, rfl⟩ := List.mem_map.mp stored
  by_cases matched : source.matchedBy update
  · simp [matched] at active
  · rw [if_neg matched] at pair commit active stamped
    -- An active commit of the pair that was not matched has a higher version.
    simpa [BalanceLedgerEntry.matchedBy, BalanceLedgerEntry.toCommitted, CommittedEntry.absorbedBy,
      pair, commit, active, stamped] using matched

/-- A step that records nothing late keeps every debit counted once. -/
theorem step_countsOnce (coherent : before.Coherent) (taken : before.step action = some after)
    (timely : ∀ operation, action = .operate operation → ¬before.RecordsLate operation)
    (once : before.store.CountsOnce) :
    after.store.CountsOnce := by
  rw [Store.countsOnce_iff _ coherent.loaded] at once
  rw [Store.countsOnce_iff _ (step_coherent coherent taken).loaded]
  intro entry stored version seen
  rcases active_of_step coherent taken stored seen with
    ⟨old, oldStored, pair, oldSeen⟩ | ⟨⟨entryId, eventId, now, rfl⟩, msg, ack, attempted, debit,
      versions, pair⟩
  · -- An earlier commit stays above the watermark, or has been matched by the update.
    have earlier := once old oldStored version oldSeen
    rw [pair] at earlier
    have cached := coherent.loaded old oldStored
    rw [pair] at cached
    rcases watermark_of_step coherent taken entry.pair fun _ => cached with
      same | ⟨update, own, _, absorbs⟩
    · rwa [same]
    · exact above_of_absorbs absorbs stored own.symm seen
  · rcases watermark_of_step coherent taken entry.pair (by simp) with
      same | ⟨update, own, _, absorbs⟩
    · rw [same]
      -- The debit has just been acknowledged, for a version above the watermark.
      by_contra below
      refine timely _ rfl ⟨msg, ack, attempted, debit, ?_⟩
      rw [pair, versions]
      exact Int.not_lt.mp below
    · exact above_of_absorbs absorbs stored own.symm seen

/-- An acknowledgement recorded below the watermark leaves a commit active below it. -/
theorem not_countsOnce_of_record {entryId eventId : String} {now : Time} {msg : OutboxMessage}
    {ack : ApplyDeltaAck} (coherent : before.Coherent)
    (taken : before.step (.operate (.record entryId eventId now)) = some after)
    (attempted : before.processor.attempted = some (msg, .acked ack)) (debit : msg.type = .debit)
    (below : ack.version ≤
      before.store.watermark (msg.payload.employeeId, msg.payload.locationId)) :
    ¬after.store.CountsOnce := by
  have held : msg ∈ before.processor.held := by simp [OutboxProcessor.held, attempted]
  obtain ⟨progress, shown⟩ := coherent.shown msg.requestId
  obtain ⟨delivering, request, found, _, own⟩ := coherent.of_held held shown
  obtain ⟨target, next, reached⟩ := step_shows coherent taken msg.requestId shown
  have heard : before.event msg.requestId (.operate (.record entryId eventId now)) =
      some (.acknowledged ack.version) := by
    simp [event, subject, attempted, Attempt.event]
  rw [heard] at next
  -- The request moves to a progress with an active commit of the acknowledged version.
  have listed : (LedgerPhase.commit, LedgerState.active, some ack.version) ∈ target.entries := by
    rw [debit] at delivering
    rcases Progress.delivering_debit delivering with rfl | rfl
    · cases next
      simp [Progress.entries]
    · cases next
      simp [Progress.entries]
  rw [← reached.entries] at listed
  obtain ⟨entry, member, seen⟩ := List.mem_map.mp listed
  obtain ⟨moved, foundAfter, pair⟩ := pair_of_shown reached member
  obtain ⟨_, again, terms⟩ := step_terms coherent taken found
  cases foundAfter.symm.trans again
  rw [Store.countsOnce_iff _ (step_coherent coherent taken).loaded]
  intro once
  have above := once entry (Store.mem_entriesOf.mp member).1 ack.version seen
  have same : entry.pair = (msg.payload.employeeId, msg.payload.locationId) := by
    rw [pair, own.payload]
    exact TimeOffRequest.pair_of_terms terms
  have mark : after.store.watermark entry.pair = before.store.watermark entry.pair := by
    have acts := step_moves coherent taken
      (show before.subject (.operate (.record entryId eventId now)) = _ by
        simp only [subject, attempted, Option.map_some]; rfl)
    simp [Store.watermark, acts.acts.balances]
  rw [mark, same] at above
  omega

/-- A late record leaves a commit active that the cached balance includes. -/
theorem RecordsLate.not_countsOnce {operation : Operation} (coherent : before.Coherent)
    (taken : before.step (.operate operation) = some after) (late : before.RecordsLate operation) :
    ¬after.store.CountsOnce := by
  cases operation with
  -- Only a record can be late.
  | record entryId eventId now =>
    obtain ⟨msg, ack, attempted, debit, below⟩ := late
    exact not_countsOnce_of_record coherent taken attempted debit below
  | _ => exact absurd late id

end Service

namespace System

/-- No acknowledged debit is recorded below the watermark of its pair. -/
def Timely (before : System) (action : Action) : Prop :=
  ∀ operation, action = .operate operation → ¬before.service.RecordsLate operation

/-- As long as nothing is recorded late, every debit is counted once. -/
theorem countsOnce_of_timely {system : System} (reached : System.Reachable Timely system) :
    system.service.store.CountsOnce := by
  -- The induction is over the steps of the system, of which the service takes some.
  induction reached with
  | start =>
    intro balance cached
    cases cached
  | step earlier timely moved once =>
    have coherent := (System.Reachable.service earlier).coherent
    rcases step_service moved with ⟨same, _⟩ | ⟨serviceAction, served, operation⟩
    · rwa [same]
    · exact Service.step_countsOnce coherent served
        (fun operate same => timely operate ((operation operate).mp same)) once

/--
Along a run every debit is counted once, in every state the run passes through, if and only if no
acknowledged debit is recorded below the watermark of its pair.
-/
theorem countsOnce_iff_timely {taken : List (System × Action)} {final : System}
    (trace : System.Trace taken final) :
    (∀ state, Runs.Visits taken final state → state.service.store.CountsOnce) ↔
      ∀ before action, (before, action) ∈ taken → before.Timely action := by
  constructor
  · -- A late record would leave a state in which its debit counts twice.
    intro once before action member operation same late
    obtain ⟨after, moved, visited⟩ := Runs.Trace.step_of_mem trace member
    have coherent := (System.Trace.service trace (Or.inr ⟨_, member⟩)).coherent
    subst same
    cases step_effect moved with
    | operates _ same served =>
      cases same
      exact late.not_countsOnce coherent served (once after visited)
    | _ => simp_all
  · -- Every state on the way is reached by the part of the run before it.
    intro timely state visited
    exact countsOnce_of_timely (Runs.Trace.reachable_of_visits trace timely visited)

/-- A debit is applied, its row is ingested, and only then its acknowledgement is recorded. -/
def lateRun : List Action :=
  [.seed "e" "l" 10 0, .readBalance "e" "l" 0, .insertBalance 0,
    .operate (.create "r" ⟨"e", "l", "2025-01-06", "2025-01-08", 3, none, true⟩ none),
    .operate (.submit "r" "hold"), .operate (.approve "r" "debit" 0), .operate (.drain 0),
    .deliver .answered 0, .ingest "event" 0 ⟨"e", "l", 7, 2, 0⟩,
    .operate (.record "commit" "drift" 0)]

/-- At the end of that run the three days are in the cached balance and subtracted once more. -/
theorem lateRun_countsTwice :
    ¬∀ system, System.Reachable WithoutGhosts system → system.service.store.CountsOnce := by
  intro once
  -- After the run the commit is active, at the version that is cached.
  have executed : (run WithoutGhosts lateRun).map (fun system =>
      system.service.store.balances.rows.any fun balance =>
        system.service.store.ledger.rows.any fun entry =>
          entry.pair = balance.pair ∧ entry.phase = .commit ∧
            entry.hcmVersion = some 2 ∧ 2 ≤ balance.lastReconciledVersion ∧
            entry.state = .active) = some true := by decide +kernel
  obtain ⟨system, reached, twice⟩ := exists_reachable_of_run executed
  simp only [List.any_eq_true, decide_eq_true_eq] at twice
  obtain ⟨balance, cached, entry, stored, pair, commit, stamped, below, active⟩ := twice
  exact once system reached balance cached entry stored pair commit 2 stamped below active

/-- The equivalence holds of that run, whose last step is the late one. -/
theorem countsOnce_iff_timely_lateRun : ∃ taken final, System.Trace taken final ∧
    taken.map Prod.snd = lateRun ∧
      ((∀ state, Runs.Visits taken final state → state.service.store.CountsOnce) ↔
        ∀ before action, (before, action) ∈ taken → before.Timely action) := by
  have executed : (run WithoutGhosts lateRun).isSome = true := by decide +kernel
  obtain ⟨taken, final, trace, same⟩ := exists_trace_of_run executed
  exact ⟨taken, final, trace, same, countsOnce_iff_timely trace⟩

end System

end TimeOff
